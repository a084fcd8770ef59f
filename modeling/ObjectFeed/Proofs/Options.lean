import Mathlib.Logic.Relation
import ObjectFeed.Config.Properties

/-!
# What options mean

Each setting has one option, and the meaning of a value is said without the readers: a numeral is a
sign and digits, a choice is a name up to ASCII case. A value that means nothing leaves the default,
only the two choices are refused instead.

* `Text.IsNatural`, `Text.IsInteger`: numerals; `natural?_eq_some_iff` and `integer?_eq_some_iff`
  say that the readers accept just them, within the limits.
* `Text.trim_trim`, `Text.lowered_trimmed`: trimming is done once, before or after the case is
  changed.
* `FeedConfig.Taken`: a setting is what an option means, or the default.
* `FeedConfig.Follows`: all settings, each from its own option.
* `FeedConfig.Respelled`: other ways to write the same options.
* `FeedConfig.ofProperties_outcome`: **which options are refused, what the others mean, and that it
  does not matter how they are written.**
-/

namespace ObjectFeed

namespace Text

/-- One or more ASCII digits with a value. -/
structure IsDigits (cs : List Char) (n : Nat) : Prop where
  nonempty : cs ≠ []
  digits : ∀ c ∈ cs, c.isDigit = true
  value : Nat.ofDigitChars 10 cs 0 = n

/-- Digits, with a plus sign or without. -/
def IsNatural (s : String) (n : Nat) : Prop :=
  ∃ cs, IsDigits cs n ∧ (s.toList = cs ∨ s.toList = '+' :: cs)

/-- Digits, with a sign or without. -/
def IsInteger (s : String) (n : Int) : Prop :=
  ∃ cs k, IsDigits cs k ∧
    ((s.toList = cs ∨ s.toList = '+' :: cs) ∧ n = k ∨ s.toList = '-' :: cs ∧ n = -(k : Int))

theorem digits?_eq_some_iff {cs : List Char} {n : Nat} : digits? cs = some n ↔ IsDigits cs n := by
  have hvalue : valueOfDigits cs = Nat.ofDigitChars 10 cs 0 := rfl
  unfold digits?
  constructor
  · intro h
    split at h
    · rename_i hdigits
      simp only [Bool.and_eq_true, Bool.not_eq_true', List.isEmpty_eq_false_iff,
        List.all_eq_true] at hdigits
      exact ⟨hdigits.1, hdigits.2, hvalue ▸ Option.some.inj h⟩
    · cases h
  · rintro ⟨hne, hdigits, hn⟩
    have hall : (!cs.isEmpty && cs.all Char.isDigit) = true := by
      simp only [Bool.and_eq_true, Bool.not_eq_true', List.isEmpty_eq_false_iff, List.all_eq_true]
      exact ⟨hne, hdigits⟩
    rw [if_pos hall, hvalue, hn]

/-- A sign is not a digit. -/
theorem IsDigits.ne_cons {cs : List Char} {n : Nat} (h : IsDigits cs n) {c : Char}
    (hc : c.isDigit = false) (rest : List Char) : cs ≠ c :: rest := by
  rintro rfl
  rw [h.digits c List.mem_cons_self] at hc
  cases hc

theorem natural?_eq_some_iff {limit n : Nat} {s : String} :
    natural? limit s = some n ↔ n < limit ∧ IsNatural s n := by
  simp only [natural?, Option.filter_eq_some_iff, decide_eq_true_eq, and_comm (b := n < limit)]
  refine and_congr_right fun _ => ?_
  unfold IsNatural
  split
  · rename_i cs hs
    rw [digits?_eq_some_iff]
    constructor
    · exact fun h => ⟨cs, h, .inr hs⟩
    · rintro ⟨ds, hds, h | h⟩
      · exact absurd (h.symm.trans hs) (hds.ne_cons rfl cs)
      · rw [hs] at h
        exact (List.cons.inj h).2 ▸ hds
  · rename_i hplus
    rw [digits?_eq_some_iff]
    constructor
    · exact fun h => ⟨s.toList, h, .inl rfl⟩
    · rintro ⟨ds, hds, h | h⟩
      · exact h ▸ hds
      · exact absurd h (hplus ds)

/-- Digits as an integer, with its sign applied. -/
theorem signed?_eq_some_iff {cs : List Char} {n : Int} {sign : Int → Int} :
    ((digits? cs : Option Int).map sign) = some n ↔ ∃ k : Nat, IsDigits cs k ∧ sign k = n := by
  simp only [Option.map_eq_some_iff, Option.bind_eq_bind, Option.bind_eq_some_iff, Option.pure_def,
    Option.some.injEq, digits?_eq_some_iff]
  constructor
  · rintro ⟨_, ⟨k, hk, rfl⟩, hn⟩
    exact ⟨k, hk, hn⟩
  · rintro ⟨k, hk, hn⟩
    exact ⟨k, ⟨k, hk, rfl⟩, hn⟩

theorem integer?_eq_some_iff {limit : Nat} {n : Int} {s : String} :
    integer? limit s = some n ↔ (-(limit : Int) ≤ n ∧ n < limit) ∧ IsInteger s n := by
  simp only [integer?, Option.filter_eq_some_iff, Bool.and_eq_true, decide_eq_true_eq,
    and_comm (b := -(limit : Int) ≤ n ∧ n < limit)]
  refine and_congr_right fun _ => ?_
  unfold IsInteger
  split
  · rename_i cs hs
    simp only [signed?_eq_some_iff]
    constructor
    · rintro ⟨k, hk, rfl⟩
      exact ⟨cs, k, hk, .inr ⟨hs, rfl⟩⟩
    · rintro ⟨ds, k, hds, ⟨h | h, rfl⟩ | ⟨h, rfl⟩⟩
      · exact absurd (h.symm.trans hs) (hds.ne_cons rfl cs)
      · cases (List.cons.inj (h.symm.trans hs)).1
      · exact ⟨k, (List.cons.inj (h.symm.trans hs)).2 ▸ hds, rfl⟩
  · rename_i cs hs
    simp only [signed?_eq_some_iff]
    constructor
    · rintro ⟨k, hk, rfl⟩
      exact ⟨cs, k, hk, .inl ⟨.inr hs, rfl⟩⟩
    · rintro ⟨ds, k, hds, ⟨h | h, rfl⟩ | ⟨h, rfl⟩⟩
      · exact absurd (h.symm.trans hs) (hds.ne_cons rfl cs)
      · exact ⟨k, (List.cons.inj (h.symm.trans hs)).2 ▸ hds, rfl⟩
      · cases (List.cons.inj (h.symm.trans hs)).1
  · rename_i hminus hplus
    simp only [signed?_eq_some_iff]
    constructor
    · rintro ⟨k, hk, rfl⟩
      exact ⟨s.toList, k, hk, .inl ⟨.inl rfl, rfl⟩⟩
    · rintro ⟨ds, k, hds, ⟨h | h, rfl⟩ | ⟨h, rfl⟩⟩
      · exact ⟨k, h ▸ hds, rfl⟩
      · exact absurd h (hplus ds)
      · exact absurd h (hminus ds)

/-- What is trimmed away, on both sides. -/
theorem exists_pads (s : List Char) :
    ∃ pad pad', (∀ c ∈ pad, isBlank c = true) ∧ (∀ c ∈ pad', isBlank c = true) ∧
      s = pad ++ trim s ++ pad' := by
  have hblank : ∀ t : List Char, ∀ c ∈ t.takeWhile isBlank, isBlank c = true :=
    fun t c hc => List.all_eq_true.1 List.all_takeWhile c hc
  refine ⟨s.takeWhile isBlank, ((trimStart s).reverse.takeWhile isBlank).reverse, hblank s,
    fun c hc => hblank _ c (List.mem_reverse.1 hc), ?_⟩
  have hend : trim s ++ ((trimStart s).reverse.takeWhile isBlank).reverse = trimStart s := by
    rw [trim, ← List.reverse_append]
    exact (congrArg List.reverse List.takeWhile_append_dropWhile).trans (List.reverse_reverse _)
  rw [List.append_assoc, hend, trimStart, List.takeWhile_append_dropWhile]

/-- **Trimming twice is trimming once.** -/
theorem trim_trim (s : List Char) : trim (trim s) = trim s := by
  obtain ⟨pad, pad', hpad, hpad', hs⟩ := exists_pads s
  calc trim (trim s) = trim (pad ++ trim s ++ pad') := (trim_padded hpad hpad' _).symm
    _ = trim s := by rw [← hs]

theorem trimmed_trimmed (s : String) : trimmed (trimmed s) = trimmed s := by
  simp only [trimmed, String.toList_ofList, trim_trim]

theorem trimmed_padded {pad pad' : String} (h : isBlankText pad = true)
    (h' : isBlankText pad' = true) (s : String) : trimmed (pad ++ s ++ pad') = trimmed s := by
  simp only [isBlankText, List.all_eq_true] at h h'
  simp only [trimmed, String.toList_append, trim_padded h h']

theorem trimmed_of_isBlankText {s : String} (h : isBlankText s = true) : trimmed s = "" := by
  have hpad : trimmed (s ++ "" ++ "") = trimmed "" := trimmed_padded h rfl ""
  rwa [String.append_empty, String.append_empty] at hpad

theorem isUpper_iff {c : Char} : c.isUpper = true ↔ 65 ≤ c.toNat ∧ c.toNat ≤ 90 :=
  decide_eq_true_iff

theorem toNat_toLower {c : Char} (h : c.isUpper = true) : c.toLower.toNat = c.toNat + 32 := by
  have hc := isUpper_iff.1 h
  have hlower : c.toLower.toNat = (c.val + 32).toNat :=
    congrArg Char.toNat (dif_pos (decide_eq_true_iff.1 h))
  have hval : c.val.toNat = c.toNat := rfl
  rw [hlower, UInt32.toNat_add, hval]
  exact Nat.mod_eq_of_lt (by simp; omega)

theorem toLower_of_not_isUpper {c : Char} (h : c.isUpper = false) : c.toLower = c :=
  dif_neg (decide_eq_false_iff_not.1 h)

/-- Neither capitals nor small letters are blank. -/
theorem isBlank_toLower (c : Char) : isBlank c.toLower = isBlank c := by
  cases hc : c.isUpper with
  | false => rw [toLower_of_not_isUpper hc]
  | true =>
    have hn := isUpper_iff.1 hc
    simp only [isBlank, toNat_toLower hc]
    grind

theorem trimStart_map_toLower (s : List Char) :
    trimStart (s.map Char.toLower) = (trimStart s).map Char.toLower := by
  rw [trimStart, List.dropWhile_map]
  congr 1
  exact congrArg (List.dropWhile · s) (funext isBlank_toLower)

/-- **The case can be changed before trimming or after it.** -/
theorem lowered_trimmed (s : String) : lowered (trimmed s) = trimmed (lowered s) := by
  simp only [lowered, trimmed, trim, String.toList_ofList, trimStart_map_toLower, ← List.map_reverse]

theorem lowered_eq_empty {s : String} : lowered s = "" ↔ s = "" := by
  rw [lowered, String.ofList_eq_empty_iff, List.map_eq_nil_iff, String.toList_eq_nil_iff]

end Text

theorem Format.ofName?_eq_some_iff {s : String} {f : Format} : ofName? s = some f ↔ f.name = s :=
  ⟨fun h => by simpa using List.find?_some h, fun h => h ▸ ofName?_name f⟩

theorem Tolerance.ofName?_eq_some_iff {s : String} {t : Tolerance} :
    ofName? s = some t ↔ t.name = s :=
  ⟨fun h => by simpa using List.find?_some h, fun h => h ▸ ofName?_name t⟩

namespace FeedConfig

section Meaning

variable {α : Type}

/-- A setting is what the trimmed value of an option means, or the default if there is no value or
if it means nothing. -/
inductive Taken (means : String → α → Prop) (default : α) (value : Option String) : α → Prop where
  | given {v : String} {x : α} (hvalue : value = some v) (hmeans : means (Text.trimmed v) x) :
    Taken means default value x
  | missing (hnothing : ∀ v x, value = some v → ¬ means (Text.trimmed v) x) :
    Taken means default value default

theorem Taken.absent {means : String → α → Prop} {default : α} {value : Option String}
    (h : value = none) : Taken means default value default :=
  .missing fun v _ hv => absurd (h.symm.trans hv) (by simp)

/-- The meaning of options that need not be set. -/
def Optional (means : String → α → Prop) (s : String) : Option α → Prop
  | none => False
  | some x => means s x

/-- Texts mean themselves, unless they are empty. -/
def IsText (s x : String) : Prop := s ≠ "" ∧ x = s

/-- The two truth values. -/
def IsFlag (s : String) (b : Bool) : Prop := s = if b then "true" else "false"

/-- A choice is named whatever the case. -/
def IsChoice (nameOf : α → String) (s : String) (x : α) : Prop := nameOf x = Text.lowered s

variable {read : String → Option α} {means : String → α → Prop}

/-- **What a reader accepts is taken.** -/
theorem taken_iff (hread : ∀ s x, read s = some x ↔ means s x) (hblank : read "" = none)
    {default : α} {p : Dict String} {name : String} {x : α} :
    Taken means default (p.get? name) x ↔ x = (optionAs read p name).getD default := by
  have hoption : optionAs read p name = (p.get? name).bind fun v => read (Text.trimmed v) := by
    cases hv : p.get? name with
    | none => simp only [optionAs, option, hv, Option.map_none, Option.filter_none, Option.bind_none]
    | some v =>
      simp only [optionAs, option, hv, Option.map_some, Option.filter_some, Option.bind_some]
      -- a blank value counts as absent, and the reader does not accept it either
      by_cases hempty : Text.trimmed v = ""
      · simp [hempty, hblank]
      · simp [hempty]
  rw [hoption]
  constructor
  · rintro (⟨hv, hx⟩ | hnothing)
    · rw [hv, Option.bind_some, (hread _ _).2 hx, Option.getD_some]
    · cases hv : p.get? name with
      | none => rfl
      | some v =>
        have hnone : read (Text.trimmed v) = none :=
          Option.eq_none_iff_forall_ne_some.2 fun x hx => hnothing v x hv ((hread _ _).1 hx)
        rw [Option.bind_some, hnone, Option.getD_none]
  · rintro rfl
    cases hv : (p.get? name).bind fun v => read (Text.trimmed v) with
    | some x =>
      obtain ⟨v, hvalue, hx⟩ := Option.bind_eq_some_iff.1 hv
      exact .given hvalue ((hread _ _).1 hx)
    | none =>
      refine .missing fun v x hvalue hx => ?_
      rw [hvalue, Option.bind_some, (hread _ _).2 hx] at hv
      cases hv

/-- `taken_iff` for an option that need not be set. -/
theorem taken_optional_iff (hread : ∀ s x, read s = some x ↔ means s x) (hblank : read "" = none)
    {p : Dict String} {name : String} {x : Option α} :
    Taken (Optional means) none (p.get? name) x ↔ x = optionAs read p name := by
  have hsome : ∀ s x, (read s).map some = some x ↔ Optional means s x := by
    intro s x
    cases x with
    | none => simp [Optional]
    | some x => simp [Optional, hread]
  rw [taken_iff hsome (by rw [hblank]; rfl)]
  have hmap : optionAs (fun s => (read s).map some) p name = (optionAs read p name).map some :=
    Option.map_bind.symm
  rw [hmap]
  cases optionAs read p name <;> rfl

end Meaning

/-- A reader of texts. -/
def text? (s : String) : Option String := if s = "" then none else some s

theorem text?_eq_some_iff (s x : String) : text? s = some x ↔ IsText s x := by
  unfold text? IsText
  split <;> simp_all [eq_comm]

theorem optionAs_text? (p : Dict String) (name : String) : optionAs text? p name = option p name := by
  unfold optionAs option text?
  cases p.get? name with
  | none => rfl
  | some v =>
    by_cases hempty : Text.trimmed v = "" <;> simp [Option.filter_some, hempty]

theorem flag?_eq_some_iff (s : String) (b : Bool) : flag? s = some b ↔ IsFlag s b := by
  unfold flag? IsFlag
  cases b <;> grind

/-- A reader of natural numbers as machine words. -/
theorem natural?_map_eq_some_iff {α : Type} {bits : Nat} {ofNat : Nat → α} {toNat : α → Nat}
    (hlt : ∀ x, toNat x < pow2 bits) (hof : ∀ x, ofNat (toNat x) = x)
    (hto : ∀ n, n < pow2 bits → toNat (ofNat n) = n) (s : String) (x : α) :
    (Text.natural? (pow2 bits) s).map ofNat = some x ↔ Text.IsNatural s (toNat x) := by
  rw [Option.map_eq_some_iff]
  constructor
  · rintro ⟨n, hn, rfl⟩
    obtain ⟨hlimit, hnatural⟩ := Text.natural?_eq_some_iff.1 hn
    rwa [hto n hlimit]
  · exact fun h => ⟨toNat x, Text.natural?_eq_some_iff.2 ⟨hlt x, h⟩, hof x⟩

theorem integer?_map_eq_some_iff (s : String) (x : Int64) :
    (Text.integer? (pow2 63) s).map Int64.ofInt = some x ↔ Text.IsInteger s x.toInt := by
  rw [Option.map_eq_some_iff]
  constructor
  · rintro ⟨n, hn, rfl⟩
    obtain ⟨⟨hlow, hhigh⟩, hinteger⟩ := Text.integer?_eq_some_iff.1 hn
    rwa [Int64.toInt_ofInt_of_le hlow hhigh]
  · refine fun h => ⟨x.toInt, Text.integer?_eq_some_iff.2 ⟨⟨?_, ?_⟩, h⟩, Int64.ofInt_toInt x⟩
    · exact x.le_toInt
    · exact x.toInt_lt

/-- Each setting is taken from its own option. -/
structure Follows (p : Dict String) (c : FeedConfig) : Prop where
  bucket : Taken IsText "" (p.get? "bucket") c.bucket
  keyPrefix : Taken (Optional IsText) none (p.get? "prefix") c.keyPrefix
  fetchPageSize : Taken (fun s n => Text.IsNatural s n.toNat) 10 (p.get? "fetch.page.size")
    c.fetchPageSize
  taskId : Taken (Optional fun s n => Text.IsInteger s n.toInt) none (p.get? "task.id") c.taskId
  maxTasks : Taken (Optional fun s n => Text.IsInteger s n.toInt) none (p.get? "tasks.max")
    c.maxTasks
  format : Taken (IsChoice Format.name) .bytes (p.get? "input.format") c.format
  chunkSize : Taken (fun s n => Text.IsNatural s n.toNat) 4096 (p.get? "max.buffer.size")
    c.decoder.chunkSize
  envelopes : Taken IsFlag false (p.get? "schemas.enable") c.decoder.envelopes
  scratch : Taken (Optional IsText) none (p.get? "temp.dir") c.decoder.scratch
  tolerance : Taken (IsChoice Tolerance.name) .none (p.get? "errors.tolerance") c.tolerance
  template : Taken IsText defaultTemplate (p.get? "file.name.template") c.template
  topic : Taken (Optional IsText) none (p.get? "topic") c.topic
  maxPollRecords : Taken (fun s n => Text.IsNatural s n.toNat) 500 (p.get? "max.poll.records")
    c.maxPollRecords

/-- The settings that options give, with choices that have been made. -/
def settled (p : Dict String) (format : Format) (tolerance : Tolerance) : FeedConfig where
  bucket := (option p "bucket").getD ""
  keyPrefix := option p "prefix"
  fetchPageSize :=
    ((optionAs (Text.natural? (pow2 32)) p "fetch.page.size").map Nat.toUInt32).getD 10
  taskId := (optionAs (Text.integer? (pow2 63)) p "task.id").map Int64.ofInt
  maxTasks := (optionAs (Text.integer? (pow2 63)) p "tasks.max").map Int64.ofInt
  format
  decoder := {
    chunkSize :=
      ((optionAs (Text.natural? (pow2 64)) p "max.buffer.size").map Nat.toUInt64).getD 4096
    envelopes := (optionAs flag? p "schemas.enable").getD false
    scratch := option p "temp.dir" }
  tolerance
  template := (option p "file.name.template").getD defaultTemplate
  topic := option p "topic"
  maxPollRecords :=
    ((optionAs (Text.natural? (pow2 64)) p "max.poll.records").map Nat.toUInt64).getD 500

theorem ofProperties_eq (p : Dict String) :
    ofProperties p = (choice Format.ofText .bytes p "input.format").bind fun format =>
      (choice Tolerance.ofText .none p "errors.tolerance").bind fun tolerance =>
        .ok (settled p format tolerance) := rfl

section Fields

variable {p : Dict String} {name : String}

theorem taken_text_iff {default x : String} :
    Taken IsText default (p.get? name) x ↔ x = (option p name).getD default := by
  rw [taken_iff text?_eq_some_iff rfl, optionAs_text?]

theorem taken_optional_text_iff {x : Option String} :
    Taken (Optional IsText) none (p.get? name) x ↔ x = option p name := by
  rw [taken_optional_iff text?_eq_some_iff rfl, optionAs_text?]

theorem taken_flag_iff {default b : Bool} :
    Taken IsFlag default (p.get? name) b ↔ b = (optionAs flag? p name).getD default :=
  taken_iff flag?_eq_some_iff rfl

theorem taken_natural_iff {α : Type} {bits : Nat} {ofNat : Nat → α} {toNat : α → Nat}
    (hlt : ∀ x, toNat x < pow2 bits) (hof : ∀ x, ofNat (toNat x) = x)
    (hto : ∀ n, n < pow2 bits → toNat (ofNat n) = n) {default n : α} :
    Taken (fun s n => Text.IsNatural s (toNat n)) default (p.get? name) n ↔
      n = ((optionAs (Text.natural? (pow2 bits)) p name).map ofNat).getD default := by
  rw [taken_iff (natural?_map_eq_some_iff hlt hof hto) rfl]
  exact Eq.congr_right (congrArg (·.getD default) Option.map_bind.symm)

theorem taken_natural32_iff {default n : UInt32} :
    Taken (fun s n => Text.IsNatural s n.toNat) default (p.get? name) n ↔
      n = ((optionAs (Text.natural? (pow2 32)) p name).map Nat.toUInt32).getD default :=
  taken_natural_iff UInt32.toNat_lt (fun _ => UInt32.ofNat_toNat)
    fun _ hn => UInt32.toNat_ofNat_of_lt' hn

theorem taken_natural64_iff {default n : UInt64} :
    Taken (fun s n => Text.IsNatural s n.toNat) default (p.get? name) n ↔
      n = ((optionAs (Text.natural? (pow2 64)) p name).map Nat.toUInt64).getD default :=
  taken_natural_iff UInt64.toNat_lt (fun _ => UInt64.ofNat_toNat)
    fun _ hn => UInt64.toNat_ofNat_of_lt' hn

theorem taken_integer_iff {n : Option Int64} :
    Taken (Optional fun s n => Text.IsInteger s n.toInt) none (p.get? name) n ↔
      n = (optionAs (Text.integer? (pow2 63)) p name).map Int64.ofInt := by
  rw [taken_optional_iff integer?_map_eq_some_iff rfl]
  exact Eq.congr_right Option.map_bind.symm

end Fields

/-- **All settings but the choices are as their options say.** -/
theorem follows_iff {p : Dict String} {c : FeedConfig} :
    c.Follows p ↔ Taken (IsChoice Format.name) .bytes (p.get? "input.format") c.format ∧
      Taken (IsChoice Tolerance.name) .none (p.get? "errors.tolerance") c.tolerance ∧
      c = settled p c.format c.tolerance := by
  constructor
  · intro h
    refine ⟨h.format, h.tolerance, ?_⟩
    obtain ⟨bucket, keyPrefix, pageSize, taskId, maxTasks, format, decoder, tolerance, template, topic,
      maxPollRecords⟩ := c
    obtain ⟨chunkSize, envelopes, scratch⟩ := decoder
    rw [settled, FeedConfig.mk.injEq, DecoderConfig.mk.injEq]
    exact ⟨taken_text_iff.1 h.bucket, taken_optional_text_iff.1 h.keyPrefix,
      taken_natural32_iff.1 h.fetchPageSize, taken_integer_iff.1 h.taskId,
      taken_integer_iff.1 h.maxTasks, rfl,
      ⟨taken_natural64_iff.1 h.chunkSize, taken_flag_iff.1 h.envelopes,
        taken_optional_text_iff.1 h.scratch⟩,
      rfl, taken_text_iff.1 h.template, taken_optional_text_iff.1 h.topic,
      taken_natural64_iff.1 h.maxPollRecords⟩
  · rintro ⟨hformat, htolerance, hc⟩
    have hfield {β : Type} (f : FeedConfig → β) : f c = f (settled p c.format c.tolerance) :=
      congrArg f hc
    exact {
      bucket := taken_text_iff.2 (hfield (·.bucket))
      keyPrefix := taken_optional_text_iff.2 (hfield (·.keyPrefix))
      fetchPageSize := taken_natural32_iff.2 (hfield (·.fetchPageSize))
      taskId := taken_integer_iff.2 (hfield (·.taskId))
      maxTasks := taken_integer_iff.2 (hfield (·.maxTasks))
      format := hformat
      chunkSize := taken_natural64_iff.2 (hfield (·.decoder.chunkSize))
      envelopes := taken_flag_iff.2 (hfield (·.decoder.envelopes))
      scratch := taken_optional_text_iff.2 (hfield (·.decoder.scratch))
      tolerance := htolerance
      template := taken_text_iff.2 (hfield (·.template))
      topic := taken_optional_text_iff.2 (hfield (·.topic))
      maxPollRecords := taken_natural64_iff.2 (hfield (·.maxPollRecords)) }

section Choice

variable {α : Type} {nameOf : α → String} {ofName? : String → Option α}
  {unknown : String → ConfigError} {read : String → Except ConfigError α}

/-- The value of an option, in small letters, if it is none of the names. -/
def Unknown (nameOf : α → String) (value : Option String) (s : String) : Prop :=
  ∃ v, value = some v ∧ Text.trimmed v ≠ "" ∧ s = Text.lowered (Text.trimmed v) ∧ ∀ x, nameOf x ≠ s

theorem Unknown.unique {value : Option String} {s s' : String} (h : Unknown nameOf value s)
    (h' : Unknown nameOf value s') : s = s' := by
  obtain ⟨v, hv, -, rfl, -⟩ := h
  obtain ⟨w, hw, -, rfl, -⟩ := h'
  rw [Option.some.inj (hv.symm.trans hw)]

theorem option_eq_some_iff {p : Dict String} {name s : String} :
    option p name = some s ↔ ∃ v, p.get? name = some v ∧ s = Text.trimmed v ∧ s ≠ "" := by
  simp only [option, Option.filter_eq_some_iff, Option.map_eq_some_iff, decide_eq_true_eq]
  constructor
  · rintro ⟨⟨v, hv, rfl⟩, hne⟩
    exact ⟨v, hv, rfl, hne⟩
  · rintro ⟨v, hv, rfl, hne⟩
    exact ⟨⟨v, hv, rfl⟩, hne⟩

/-- **An unknown name is refused, otherwise the choice is taken.** -/
theorem choice_outcome (hname : ∀ s x, ofName? s = some x ↔ nameOf x = s) (hempty : ofName? "" = none)
    (hread : ∀ s, read s = match ofName? (Text.lowered (Text.trimmed s)) with
      | some x => .ok x
      | none => .error (unknown (Text.lowered (Text.trimmed s))))
    (default : α) (p : Dict String) (name : String) :
    (∃ s, Unknown nameOf (p.get? name) s ∧ choice read default p name = .error (unknown s)) ∨
      (∀ s, ¬ Unknown nameOf (p.get? name) s) ∧
        ∃ x, choice read default p name = .ok x ∧
          ∀ y, Taken (IsChoice nameOf) default (p.get? name) y ↔ y = x := by
  have htaken (y : α) : Taken (IsChoice nameOf) default (p.get? name) y ↔
      y = ((option p name).bind fun s => ofName? (Text.lowered s)).getD default :=
    taken_iff (fun s x => hname (Text.lowered s) x) hempty
  cases hoption : option p name with
  | none =>
    refine .inr ⟨?_, default, by rw [choice, hoption], fun y => by rw [htaken, hoption]; rfl⟩
    rintro s ⟨v, hv, hne, -, -⟩
    rw [option_eq_some_iff.2 ⟨v, hv, rfl, hne⟩] at hoption
    cases hoption
  | some s =>
    obtain ⟨v, hv, rfl, hne⟩ := option_eq_some_iff.1 hoption
    -- the value is trimmed twice, by the option and by the reader of the choice
    have hchoice : choice read default p name = read (Text.trimmed v) := by rw [choice, hoption]
    rw [hread, Text.trimmed_trimmed] at hchoice
    cases hof : ofName? (Text.lowered (Text.trimmed v)) with
    | none =>
      have hunknown : ∀ x, nameOf x ≠ Text.lowered (Text.trimmed v) := by
        intro x hx
        rw [(hname _ x).2 hx] at hof
        cases hof
      exact .inl ⟨_, ⟨v, hv, hne, rfl, hunknown⟩, by rw [hchoice, hof]⟩
    | some x =>
      refine .inr ⟨?_, x, by rw [hchoice, hof], fun y => ?_⟩
      · rintro s ⟨w, hw, -, rfl, hnone⟩
        cases Option.some.inj (hv.symm.trans hw)
        exact hnone x ((hname _ x).1 hof)
      · rw [htaken, hoption, Option.bind_some, hof, Option.getD_some]

end Choice

theorem format_outcome (p : Dict String) :
    (∃ s, Unknown Format.name (p.get? "input.format") s ∧
        choice Format.ofText .bytes p "input.format" = .error (.unknownFormat s)) ∨
      (∀ s, ¬ Unknown Format.name (p.get? "input.format") s) ∧
        ∃ f, choice Format.ofText .bytes p "input.format" = .ok f ∧
          ∀ g, Taken (IsChoice Format.name) .bytes (p.get? "input.format") g ↔ g = f :=
  choice_outcome (fun _ _ => Format.ofName?_eq_some_iff) (by decide) (fun s => by
    simp only [Format.ofText]
    cases Format.ofName? (Text.lowered (Text.trimmed s)) <;> rfl) ..

theorem tolerance_outcome (p : Dict String) :
    (∃ s, Unknown Tolerance.name (p.get? "errors.tolerance") s ∧
        choice Tolerance.ofText .none p "errors.tolerance" = .error (.unknownTolerance s)) ∨
      (∀ s, ¬ Unknown Tolerance.name (p.get? "errors.tolerance") s) ∧
        ∃ t, choice Tolerance.ofText .none p "errors.tolerance" = .ok t ∧
          ∀ u, Taken (IsChoice Tolerance.name) .none (p.get? "errors.tolerance") u ↔ u = t :=
  choice_outcome (fun _ _ => Tolerance.ofName?_eq_some_iff) (by decide) (fun s => by
    simp only [Tolerance.ofText]
    cases Tolerance.ofName? (Text.lowered (Text.trimmed s)) <;> rfl) ..

/-- **The format is looked at first, then the tolerance, and no other option is refused.** -/
theorem ofProperties_cases (p : Dict String) :
    (∃ s, Unknown Format.name (p.get? "input.format") s ∧
        ofProperties p = .error (.unknownFormat s)) ∨
      (∀ s, ¬ Unknown Format.name (p.get? "input.format") s) ∧
        ((∃ s, Unknown Tolerance.name (p.get? "errors.tolerance") s ∧
            ofProperties p = .error (.unknownTolerance s)) ∨
          (∀ s, ¬ Unknown Tolerance.name (p.get? "errors.tolerance") s) ∧
            ∃ c, ofProperties p = .ok c ∧ ∀ d, Follows p d ↔ d = c) := by
  rw [ofProperties_eq]
  rcases format_outcome p with ⟨s, hs, hformat⟩ | ⟨hknown, f, hformat, hf⟩
  · exact .inl ⟨s, hs, by rw [hformat]; rfl⟩
  · refine .inr ⟨hknown, ?_⟩
    rw [hformat]
    rcases tolerance_outcome p with ⟨s, hs, htolerance⟩ | ⟨hknown', t, htolerance, ht⟩
    · exact .inl ⟨s, hs, by rw [htolerance]; rfl⟩
    · refine .inr ⟨hknown', settled p f t, by rw [htolerance]; rfl, fun d => ?_⟩
      rw [follows_iff, hf, ht]
      constructor
      · rintro ⟨rfl, rfl, hd⟩
        exact hd
      · rintro rfl
        exact ⟨rfl, rfl, rfl⟩

/-- The options of choices. -/
def choiceNames : List String := ["input.format", "errors.tolerance"]

/-- The other options. -/
def valueNames : List String :=
  ["bucket", "prefix", "fetch.page.size", "task.id", "tasks.max", "max.buffer.size",
    "schemas.enable", "temp.dir", "file.name.template", "topic", "max.poll.records"]

/-- Other ways to write the same options. -/
inductive Respelled : Dict String → Dict String → Prop where
  | padded {p : Dict String} {name v pad pad' : String} (hpad : Text.isBlankText pad = true)
    (hpad' : Text.isBlankText pad' = true) :
    Respelled (p.insert name v) (p.insert name (pad ++ v ++ pad'))
  | dropped {p : Dict String} {name v : String} (hblank : Text.isBlankText v = true) :
    Respelled (p.insert name v) (p.erase name)
  | recased {p : Dict String} {name v w : String} (hname : name ∈ choiceNames)
    (hcase : Text.lowered v = Text.lowered w) : Respelled (p.insert name v) (p.insert name w)
  | unknown {p : Dict String} {name v : String} (hname : name ∉ choiceNames ++ valueNames) :
    Respelled p (p.insert name v)

/-- Options with the same values, and the same choices up to ASCII case. -/
structure Alike (p q : Dict String) : Prop where
  values : ∀ name ∈ valueNames, option p name = option q name
  choices : ∀ name ∈ choiceNames,
    (option p name).map Text.lowered = (option q name).map Text.lowered

theorem Alike.of_option {p q : Dict String}
    (h : ∀ name ∈ choiceNames ++ valueNames, option p name = option q name) : Alike p q where
  values name hname := h name (List.mem_append_right _ hname)
  choices name hname := congrArg _ (h name (List.mem_append_left _ hname))

/-- The case of a value has no influence on whether it is blank. -/
theorem option_map_lowered (p : Dict String) (name : String) :
    (option p name).map Text.lowered =
      (((p.get? name).map Text.lowered).map Text.trimmed).filter (· ≠ "") := by
  cases hv : p.get? name with
  | none => simp [option, hv]
  | some v =>
    by_cases hempty : Text.trimmed v = "" <;>
      simp [option, hv, Option.filter_some, ← Text.lowered_trimmed, Text.lowered_eq_empty, hempty]

theorem Respelled.alike {p q : Dict String} (h : Respelled p q) : Alike p q := by
  cases h with
  | padded hpad hpad' =>
    refine .of_option fun other _ => ?_
    simp only [option, Dict.get?_insert]
    split <;> simp [Text.trimmed_padded hpad hpad']
  | dropped hblank =>
    refine .of_option fun other _ => ?_
    simp only [option, Dict.get?_insert, Dict.get?_erase]
    split <;> simp [Text.trimmed_of_isBlankText hblank]
  | @recased p name v w hname hcase =>
    refine ⟨fun other hother => ?_, fun other _ => ?_⟩
    · have hne : other ≠ name := by
        rintro rfl
        revert hname
        exact (by decide : ∀ name ∈ valueNames, name ∉ choiceNames) other hother
      simp only [option, Dict.get?_insert, if_neg hne]
    · simp only [option_map_lowered, Dict.get?_insert]
      split <;> simp [hcase]
  | @unknown _ name _ hname =>
    refine .of_option fun other hother => ?_
    have hne : other ≠ name := fun he => hname (he ▸ hother)
    simp only [option, Dict.get?_insert, if_neg hne]

/-- A reader that does not see the case makes the same choice. -/
theorem choice_congr {α : Type} {read : String → Except ConfigError α}
    (hread : ∀ s s', Text.lowered s = Text.lowered s' → read s = read s') (default : α)
    {p q : Dict String} {name : String}
    (h : (option p name).map Text.lowered = (option q name).map Text.lowered) :
    choice read default p name = choice read default q name := by
  unfold choice
  cases hp : option p name with
  | none => cases hq : option q name <;> simp_all
  | some s =>
    cases hq : option q name with
    | none => simp_all
    | some s' =>
      rw [hp, hq] at h
      exact hread s s' (Option.some.inj h)

theorem ofProperties_congr {p q : Dict String} (h : Alike p q) : ofProperties p = ofProperties q := by
  have hformat : choice Format.ofText .bytes p "input.format" =
      choice Format.ofText .bytes q "input.format" := by
    refine choice_congr (fun s s' hs => ?_) _ (h.choices "input.format" (by decide))
    simp only [Format.ofText, Text.lowered_trimmed, hs]
  have htolerance : choice Tolerance.ofText .none p "errors.tolerance" =
      choice Tolerance.ofText .none q "errors.tolerance" := by
    refine choice_congr (fun s s' hs => ?_) _ (h.choices "errors.tolerance" (by decide))
    simp only [Tolerance.ofText, Text.lowered_trimmed, hs]
  have hsettled : settled p = settled q := by
    funext format tolerance
    have hvalues := h.values
    simp only [valueNames, List.forall_mem_cons] at hvalues
    simp only [settled, optionAs, hvalues]
  rw [ofProperties_eq, ofProperties_eq, hformat, htolerance, hsettled]

theorem ofProperties_respelled {p q : Dict String} (h : Relation.EqvGen Respelled p q) :
    ofProperties q = ofProperties p := by
  induction h with
  | rel p q h => exact (ofProperties_congr h.alike).symm
  | refl => rfl
  | symm _ _ _ ih => exact ih.symm
  | trans _ _ _ _ _ ih ih' => exact ih'.trans ih

/-- **What flat options give.** They are refused for an unknown format, and otherwise for an unknown
tolerance; all others give the settings that they mean, one by one. Padded values, blank
options, choices in other cases and further options make no difference. -/
theorem ofProperties_outcome (p : Dict String) :
    let unknownFormat := Unknown Format.name (p.get? "input.format")
    let unknownTolerance := Unknown Tolerance.name (p.get? "errors.tolerance")
    (∀ e, ofProperties p = .error e ↔
      (∃ s, unknownFormat s ∧ e = .unknownFormat s) ∨
        (∀ s, ¬ unknownFormat s) ∧ ∃ s, unknownTolerance s ∧ e = .unknownTolerance s) ∧
    (∀ c, ofProperties p = .ok c ↔
      (∀ s, ¬ unknownFormat s) ∧ (∀ s, ¬ unknownTolerance s) ∧ c.Follows p) ∧
    ∀ q, Relation.EqvGen Respelled p q → ofProperties q = ofProperties p := by
  intro unknownFormat unknownTolerance
  refine ⟨fun e => ?_, fun c => ?_, fun q => ofProperties_respelled⟩
  · rcases ofProperties_cases p with ⟨s, hs, heq⟩ | ⟨hknown, ⟨s, hs, heq⟩ | ⟨hknown', c, heq, -⟩⟩
    · rw [heq, Except.error.injEq]
      constructor
      · exact fun he => .inl ⟨s, hs, he.symm⟩
      · rintro (⟨s', hs', rfl⟩ | ⟨hnone, -⟩)
        · rw [hs.unique hs']
        · exact absurd hs (hnone s)
    · rw [heq, Except.error.injEq]
      constructor
      · exact fun he => .inr ⟨hknown, s, hs, he.symm⟩
      · rintro (⟨s', hs', -⟩ | ⟨-, s', hs', rfl⟩)
        · exact absurd hs' (hknown s')
        · rw [hs.unique hs']
    · rw [heq]
      constructor
      · rintro ⟨⟩
      · rintro (⟨s', hs', -⟩ | ⟨-, s', hs', -⟩)
        · exact absurd hs' (hknown s')
        · exact absurd hs' (hknown' s')
  · rcases ofProperties_cases p with ⟨s, hs, heq⟩ | ⟨hknown, ⟨s, hs, heq⟩ | ⟨hknown', d, heq, hd⟩⟩
    · rw [heq]
      exact ⟨nofun, fun h => absurd hs (h.1 s)⟩
    · rw [heq]
      exact ⟨nofun, fun h => absurd hs (h.2.1 s)⟩
    · rw [heq, Except.ok.injEq, hd, eq_comm]
      exact ⟨fun hc => ⟨hknown, hknown', hc⟩, fun h => h.2.2⟩

/-- An unknown format is refused before an unknown tolerance. Numbers are taken or left, and an
option that nobody reads and the case of a choice make no difference. -/
theorem ofProperties_outcome_sample :
    let p : Dict String := (∅ : Dict String).insert "tasks.max" "+03 "
    let q := p.insert "max.poll.records" "-1"
    let c : FeedConfig := { format := .jsonl, maxTasks := some 3 }
    ofProperties ((q.insert "input.format" " XML").insert "errors.tolerance" "some") =
        .error (.unknownFormat "xml") ∧
      ofProperties (q.insert "input.format" "jsonl") = .ok c ∧
      ofProperties ((q.insert "input.format" "JsonL").insert "colour" "red") = .ok c := by
  intro p q c
  have hfollows : c.Follows (q.insert "input.format" "jsonl") := {
    bucket := .absent (by decide +kernel)
    keyPrefix := .absent (by decide +kernel)
    fetchPageSize := .absent (by decide +kernel)
    taskId := .absent (by decide +kernel)
    maxTasks := .given (v := "+03 ") (by decide +kernel)
      ⟨['0', '3'], 3, ⟨by simp, by simp, by decide⟩, .inl ⟨.inr (by decide +kernel), by decide⟩⟩
    format := .given (v := "jsonl") (by decide +kernel)
      (show Format.name .jsonl = Text.lowered (Text.trimmed "jsonl") by decide +kernel)
    chunkSize := .absent (by decide +kernel)
    envelopes := .absent (by decide +kernel)
    scratch := .absent (by decide +kernel)
    tolerance := .absent (by decide +kernel)
    template := .absent (by decide +kernel)
    topic := .absent (by decide +kernel)
    maxPollRecords := by
      have hvalue : (q.insert "input.format" "jsonl").get? "max.poll.records" = some "-1" := by
        decide +kernel
      have htext : (Text.trimmed "-1").toList = ['-', '1'] := by decide +kernel
      refine .missing fun v n hv hn => ?_
      cases hvalue.symm.trans hv
      obtain ⟨cs, hcs, h | h⟩ := hn
      · exact hcs.ne_cons rfl _ (h.symm.trans htext)
      · cases htext.symm.trans h }
  have hknown (s : String) :
      ¬ Unknown Format.name ((q.insert "input.format" "jsonl").get? "input.format") s := by
    have hvalue : (q.insert "input.format" "jsonl").get? "input.format" = some "jsonl" := by
      decide +kernel
    rintro ⟨v, hv, -, rfl, hnone⟩
    cases hvalue.symm.trans hv
    exact hnone .jsonl (by decide +kernel)
  have hknown' (s : String) :
      ¬ Unknown Tolerance.name ((q.insert "input.format" "jsonl").get? "errors.tolerance") s := by
    have hvalue : (q.insert "input.format" "jsonl").get? "errors.tolerance" = none := by
      decide +kernel
    rintro ⟨v, hv, -⟩
    cases hvalue.symm.trans hv
  have hlower : ofProperties (q.insert "input.format" "jsonl") = .ok c :=
    ((ofProperties_outcome _).2.1 c).2 ⟨hknown, hknown', hfollows⟩
  have hrespelled : Relation.EqvGen Respelled (q.insert "input.format" "jsonl")
      ((q.insert "input.format" "JsonL").insert "colour" "red") :=
    .trans _ _ _ (.rel _ _ (.recased (by decide) (by decide +kernel)))
      (.rel _ _ (.unknown (by decide)))
  refine ⟨((ofProperties_outcome _).1 _).2 (.inl ⟨"xml", ⟨" XML", ?_, ?_, ?_, ?_⟩, rfl⟩), hlower, ?_⟩
  · decide +kernel
  · decide +kernel
  · decide +kernel
  · intro f
    cases f <;> decide
  · rw [(ofProperties_outcome _).2.2 _ hrespelled, hlower]

end FeedConfig

end ObjectFeed
