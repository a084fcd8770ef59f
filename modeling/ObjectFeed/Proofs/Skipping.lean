import ObjectFeed.Proofs.TextReading

/-!
# Passing over what is printed

A field that nobody asks for is passed over, whatever value it has and however deep it is nested.
The brackets that are open are kept in a list, and each loop is bounded by the length of the text,
so the text that is left is never longer than what the loop has left.

* `Decimal.shortest_proper`: the digits of a binary number do not start with zeros.
* `Json.Unsigned`: the texts of numbers without their signs; `chars_number` says that all printed
  numbers are such.
* `Reader.reads_skipNumber`, `Reader.reads_skipString`: single values are passed over.
* `Reader.Goes`: what follows a value is passed over to the end of the outermost bracket.
* `Reader.reads_skipFrom`, `Reader.goes_elements`, `Reader.goes_members`: one case for each kind of
  value.
* `Reader.reads_skipValue`: **any value is passed over.**
-/

namespace ObjectFeed

namespace Decimal

/-- A decimal whose first digit is not zero, or zero itself. -/
def Proper (d : Decimal) : Prop := d.digits ≠ 0 ∨ d = ⟨0, 0⟩

theorem strip_proper {d : Decimal} (h : d.Proper) (fuel : Nat) : (strip fuel d).Proper := by
  induction fuel generalizing d with
  | zero => exact h
  | succ fuel ih =>
    unfold strip
    split
    · rename_i hzero
      exact ih (.inl (by simp only; omega))
    · exact h

/-- An interval above zero has no decimal without digits. -/
theorem Interval.digits_of_holds {i : Interval} (hlo : 0 < i.lo) {d : Decimal}
    (h : i.holds d = true) : d.digits ≠ 0 := by
  intro hzero
  have hscale : 0 < i.lo * pow10 (-d.exponent).toNat := Nat.mul_pos hlo (Nat.pow_pos (by decide))
  simp only [holds, hzero, Nat.zero_mul] at h
  split at h <;> simp only [Bool.and_eq_true, decide_eq_true_eq] at h <;> omega

theorem Interval.digits_of_pick {i : Interval} (hlo : 0 < i.lo) {k : Int} {d : Decimal}
    (h : i.pick k = some d) : d.digits ≠ 0 := by
  simp only [pick] at h
  split at h
  · rename_i hbelow _
    have hdigits := digits_of_holds hlo hbelow
    have hround : ∀ num den, num / den ≠ 0 → Binary.roundDiv num den ≠ 0 := by
      intro num den hquotient
      simp only [Binary.roundDiv]
      split
      · exact hquotient
      · exact Nat.succ_ne_zero _
    cases h
    exact hround _ _ hdigits
  · rename_i hbelow _
    cases h
    exact digits_of_holds hlo hbelow
  · rename_i _ habove
    cases h
    exact digits_of_holds hlo habove
  · cases h

theorem Interval.search_proper {i : Interval} (hlo : 0 < i.lo) (fuel : Nat) (k : Int) :
    (i.search fuel k).Proper := by
  have hpick (k : Int) {other : Decimal} (h : other.Proper) : ((i.pick k).getD other).Proper := by
    cases hd : i.pick k with
    | none => exact h
    | some d => exact .inl (digits_of_pick hlo hd)
  induction fuel generalizing k with
  | zero => exact hpick k (.inr rfl)
  | succ fuel ih => exact hpick k (ih (k - 1))

theorem shortest_proper (f : Binary.FloatFormat) (significand : Nat) (exponent : Int) :
    (shortest f significand exponent).Proper := by
  unfold shortest
  split
  · exact .inr rfl
  · rename_i hne
    -- half a unit below a number that is not zero is above zero
    refine strip_proper (Interval.search_proper ?_ _ _) _
    refine Nat.mul_pos ?_ (Nat.pow_pos (by decide))
    split <;> omega

end Decimal

namespace Json

/-- One digit or more. -/
structure Digits (ds : List Char) : Prop where
  nonempty : ds ≠ []
  digits : ∀ d ∈ ds, d.isDigit = true

/-- Digits without leading zeros. -/
def Whole (ds : List Char) : Prop := ds = ['0'] ∨ Digits ds ∧ ds.head? ≠ some '0'

/-- Digits, with a fraction or without. -/
inductive Mantissa : List Char → Prop where
  | whole {ws : List Char} (hws : Whole ws) : Mantissa ws
  | point {ws ds : List Char} (hws : Whole ws) (hds : Digits ds) : Mantissa (ws ++ '.' :: ds)

/-- The text of a number without its sign. -/
inductive Unsigned : List Char → Prop where
  | plain {cs : List Char} (hcs : Mantissa cs) : Unsigned cs
  | scaled {cs ds : List Char} {sign : Char} (hcs : Mantissa cs) (hsign : sign = '+' ∨ sign = '-')
    (hds : Digits ds) : Unsigned (cs ++ 'e' :: sign :: ds)

theorem whole_zero : Whole ['0'] := .inl rfl

theorem digits_zero : Digits ['0'] := ⟨by simp, by simp⟩

theorem digits_digitsOf (n : Nat) : Digits (Decimal.digitsOf n) :=
  ⟨Nat.toDigits_ne_nil, fun _ h => isDigit_of_mem_digitsOf h⟩

theorem isDigit_of_mem_replicate {k : Nat} : ∀ c ∈ List.replicate k '0', c.isDigit = true := by
  intro c hc
  rw [(List.mem_replicate.1 hc).2]
  rfl

/-- What starts with the digits of a positive number has no leading zeros. -/
theorem whole_of_digitsOf {n : Nat} (hn : n ≠ 0) {ds : List Char} (hds : Digits ds)
    (hhead : ds.head? = (Decimal.digitsOf n).head?) : Whole ds := by
  obtain ⟨c, cs, hcs, hc⟩ := exists_digitsOf_of_ne_zero hn
  refine .inr ⟨hds, ?_⟩
  rw [hhead, hcs]
  simpa using hc

theorem whole_digitsOf (n : Nat) : Whole (Decimal.digitsOf n) := by
  by_cases hn : n = 0
  · exact .inl (hn ▸ rfl)
  · exact whole_of_digitsOf hn (digits_digitsOf n) rfl

/-- A decimal written out has the form of a number. -/
theorem mantissa_positional {d : Decimal} (h : d.Proper) : Mantissa d.positional := by
  rcases h with hne | rfl
  · obtain ⟨c, cs, hcs⟩ : ∃ c cs, Decimal.digitsOf d.digits = c :: cs :=
      List.exists_cons_of_ne_nil Nat.toDigits_ne_nil
    have hdigits := digits_digitsOf d.digits
    simp only [Decimal.positional]
    split
    · -- zeros are added behind the digits
      refine .point (whole_of_digitsOf hne ⟨?_, ?_⟩ ?_) digits_zero
      · simp [hcs]
      · exact fun e he => (List.mem_append.1 he).elim (hdigits.digits e) (isDigit_of_mem_replicate e)
      · simp [hcs]
    · rename_i hexponent
      split
      · -- the point is among the digits
        rename_i hplaces
        have hfirst : (Decimal.digitsOf d.digits).length - (-d.exponent).toNat ≠ 0 := by omega
        have hlast : (Decimal.digitsOf d.digits).length - (-d.exponent).toNat <
            (Decimal.digitsOf d.digits).length := by omega
        refine .point (whole_of_digitsOf hne ⟨?_, ?_⟩ ?_) ⟨?_, ?_⟩
        · simp [hfirst, hdigits.nonempty]
        · exact fun e he => hdigits.digits e (List.mem_of_mem_take he)
        · rw [List.head?_take, if_neg hfirst]
        · simpa using hlast
        · exact fun e he => hdigits.digits e (List.mem_of_mem_drop he)
      · -- zeros are added before the digits
        refine .point whole_zero ⟨?_, ?_⟩
        · simp [hcs]
        · exact fun e he =>
            (List.mem_append.1 he).elim (isDigit_of_mem_replicate e) (hdigits.digits e)
  · exact .point whole_zero digits_zero

theorem mantissa_mantissa (d : Decimal) : Mantissa d.mantissa := by
  have hdigits := digits_digitsOf d.digits
  have hwhole := whole_digitsOf d.digits
  unfold Decimal.mantissa
  split
  · rename_i c c' cs hcs
    rw [hcs] at hdigits hwhole
    have hfirst : Whole [c] := by
      rcases hwhole with hzero | ⟨-, hhead⟩
      · simp at hzero
      · exact .inr ⟨⟨by simp, fun e he => hdigits.digits e (by simp_all)⟩, hhead⟩
    exact .point hfirst ⟨by simp, fun e he => hdigits.digits e (List.mem_cons_of_mem _ he)⟩
  · exact .whole hwhole

/-- **A printed binary number is null, or a number with its sign.** -/
theorem chars_double (x : Double) :
    x.chars = ['n', 'u', 'l', 'l'] ∨ ∃ cs, Unsigned cs ∧ (x.chars = cs ∨ x.chars = '-' :: cs) := by
  unfold Double.chars
  split
  · rename_i negative m e _
    have hproper := Decimal.shortest_proper .double m e
    generalize Decimal.shortest .double m e = d at hproper
    have hbody : Unsigned (if m = 0 then ['0', '.', '0']
        else if Double.isPositional d.leading then d.positional
        else d.mantissa ++ 'e' :: (if d.leading < 0 then '-' else '+') ::
          Decimal.digitsOf d.leading.natAbs) := by
      split
      · exact .plain (.point whole_zero digits_zero)
      · split
        · exact .plain (mantissa_positional hproper)
        · refine .scaled (mantissa_mantissa d) ?_ (digits_digitsOf _)
          split
          · exact .inr rfl
          · exact .inl rfl
    cases negative
    · exact .inr ⟨_, hbody, .inl rfl⟩
    · exact .inr ⟨_, hbody, .inr rfl⟩
  · exact .inl rfl

namespace Reader

theorem reads_digits {ds rest : List Char} (h : Digits ds)
    (hrest : ∀ c ∈ rest.head?, c.isDigit = false) :
    ∃ d ds', Reads (takeWhile Char.isDigit) (ds ++ rest) (d :: ds') rest := by
  obtain ⟨d, ds', rfl⟩ := List.exists_cons_of_ne_nil h.nonempty
  exact ⟨d, ds', reads_takeWhile_append h.digits hrest⟩

theorem reads_skipExponent {sign : Char} {ds rest : List Char} (hsign : sign = '+' ∨ sign = '-')
    (hds : Digits ds) (hrest : Ends rest) :
    Reads skipExponent ('e' :: sign :: ds ++ rest) () rest := by
  obtain ⟨d, ds', htake⟩ := reads_digits hds hrest.not_isDigit
  rcases hsign with rfl | rfl <;>
    exact (reads_skip 'e' _).bind ((reads_peek _).bind
      ((reads_skip _ _).bind (htake.bind (.pure () rest))))

/-- Passes over a fraction and an exponent. -/
def skipFraction : Reader Unit := do
  match ← peek with
  | some '.' =>
    skip
    match ← takeWhile Char.isDigit with
    | [] => failAhead .invalidNumber
    | _ :: _ =>
      match ← peek with
      | some 'e' | some 'E' => skipExponent
      | _ => pure ()
  | some 'e' | some 'E' => skipExponent
  | _ => pure ()

theorem reads_skipFraction_none {rest : List Char} (hrest : Ends rest) :
    Reads skipFraction rest () rest := by
  refine (reads_peek _).bind ?_
  cases rest with
  | nil => exact .pure () []
  | cons c rest =>
    rcases hrest c rfl with rfl | rfl | rfl <;> exact .pure () _

/-- Digits are passed over before the rest of a number. -/
theorem reads_skipNumber_of_whole {ws t rest : List Char} (hws : Whole ws)
    (ht : ∀ c ∈ t.head?, c.isDigit = false) (h : Reads skipFraction t () rest) :
    Reads skipNumber (ws ++ t) () rest := by
  refine (reads_peek _).bind ?_
  rcases hws with rfl | ⟨hws, hhead⟩
  · refine (reads_skip '0' t).bind ((reads_peek t).bind ?_)
    cases t with
    | nil => exact h
    | cons c t =>
      simp only [List.head?_cons, ht c rfl, Bool.false_eq_true, if_false]
      exact h
  · obtain ⟨d, ds', htake⟩ := reads_digits hws ht
    have hnext : (ws ++ t).head? ≠ some '0' := by
      obtain ⟨c, ws', rfl⟩ := List.exists_cons_of_ne_nil hws.nonempty
      exact hhead
    split
    · contradiction
    · exact htake.bind h

/-- **A number without its sign is passed over.** -/
theorem reads_skipNumber {cs rest : List Char} (hcs : Unsigned cs) (hrest : Ends rest) :
    Reads skipNumber (cs ++ rest) () rest := by
  cases hcs with
  | plain hcs =>
    cases hcs with
    | whole hws =>
      exact reads_skipNumber_of_whole hws hrest.not_isDigit (reads_skipFraction_none hrest)
    | @point ws ds hws hds =>
      obtain ⟨d, ds', htake⟩ := reads_digits hds hrest.not_isDigit
      rw [List.append_assoc]
      refine reads_skipNumber_of_whole hws (by simp) ?_
      refine (reads_peek _).bind ((reads_skip '.' _).bind (htake.bind ((reads_peek rest).bind ?_)))
      cases rest with
      | nil => exact .pure () []
      | cons c rest =>
        rcases hrest c rfl with rfl | rfl | rfl <;> exact .pure () _
  | @scaled cs es sign hcs hsign hes =>
    have hexponent := reads_skipExponent hsign hes hrest
    cases hcs with
    | whole hws =>
      rw [List.append_assoc]
      exact reads_skipNumber_of_whole hws (by simp) ((reads_peek _).bind hexponent)
    | @point ws ds hws hds =>
      have hstop : ∀ c ∈ ('e' :: sign :: es ++ rest).head?, c.isDigit = false := by simp
      obtain ⟨d, ds', htake⟩ := reads_digits hds hstop
      rw [List.append_assoc, List.append_assoc]
      refine reads_skipNumber_of_whole hws (by simp) ?_
      exact (reads_peek _).bind ((reads_skip '.' _).bind (htake.bind ((reads_peek _).bind hexponent)))

theorem reads_skipString {limit : Nat} {s : List Char} (h : s.length < limit) (rest : List Char) :
    Reads (skipString limit) (s.flatMap escaped ++ '"' :: rest) () rest := by
  induction s generalizing limit with
  | nil =>
    obtain ⟨limit, rfl⟩ := Nat.exists_eq_add_one_of_ne_zero (Nat.ne_zero_of_lt h)
    exact (reads_peek _).bind (reads_skip '"' rest)
  | cons c s ih =>
    obtain ⟨limit, rfl⟩ := Nat.exists_eq_add_one_of_ne_zero (Nat.ne_zero_of_lt h)
    have hrest : Reads (skipString limit) _ () rest := ih (by simpa using h)
    rw [List.flatMap_cons, List.append_assoc]
    rcases escaped_cases c with ⟨he, hquote, hbackslash, hcontrol⟩ | ⟨l, he, hl, hc⟩ |
      ⟨a, b, he, hc, hcontrol⟩ <;> rw [he]
    · refine (reads_peek _).bind ?_
      rw [List.singleton_append, List.head?_cons]
      split
      · contradiction
      · rename_i hd
        exact absurd (Option.some.inj hd) hquote
      · rename_i hd
        exact absurd (Option.some.inj hd) hbackslash
      · rename_i d _ _ hd
        cases hd
        rw [if_neg hcontrol]
        exact (reads_skip c _).bind hrest
    · refine (reads_peek _).bind ((reads_skip '\\' _).bind
        ((reads_peek (l :: (s.flatMap escaped ++ '"' :: rest))).bind ?_))
      rw [List.head?_cons]
      split
      · contradiction
      · rename_i hd
        exact absurd (Option.some.inj hd) hl
      · rename_i d _ hd
        cases hd
        rw [hc]
        exact (reads_skip l _).bind hrest
    · exact (reads_peek _).bind ((reads_skip '\\' _).bind ((reads_peek _).bind
        ((reads_skip 'u' _).bind ((reads_hexEscape hc _).bind hrest))))

variable {limit rounds : Nat} {bs : List Bracket} {s rest after : List Char}

/-- More rounds than there are brackets make no difference. -/
theorem closeBrackets_congr {limit limit' : Nat} (h : bs.length ≤ limit) (h' : bs.length ≤ limit') :
    closeBrackets limit bs = closeBrackets limit' bs := by
  induction bs generalizing limit limit' with
  | nil => cases limit <;> cases limit' <;> rfl
  | cons b bs ih =>
    obtain ⟨limit, rfl⟩ := Nat.exists_eq_add_one_of_ne_zero (Nat.ne_zero_of_lt h)
    obtain ⟨limit', rfl⟩ := Nat.exists_eq_add_one_of_ne_zero (Nat.ne_zero_of_lt h')
    have hrest : closeBrackets limit bs = closeBrackets limit' bs :=
      ih (by simpa using h) (by simpa using h')
    simp only [closeBrackets, hrest]

/-- Passes over what follows a value inside the brackets. -/
def skipAfter (limit rounds : Nat) (bs : List Bracket) : Reader Unit := do
  match ← closeBrackets limit bs with
  | none => pure ()
  | some bs => skipWithin limit rounds bs

/-- Passes over a value inside the brackets, which is not a key any more, and over what follows. -/
def skipFrom (limit rounds : Nat) (bs : List Bracket) : Reader Unit := do
  let next ← do
    match ← skipBlank with
    | none => fail .valueEnds
    | some 'n' => skip; expectWord ['u', 'l', 'l']; closeBrackets limit bs
    | some 't' => skip; expectWord ['r', 'u', 'e']; closeBrackets limit bs
    | some 'f' => skip; expectWord ['a', 'l', 's', 'e']; closeBrackets limit bs
    | some '-' => skip; skipNumber; closeBrackets limit bs
    | some '"' => skip; skipString (limit + 1); closeBrackets limit bs
    | some '[' => enterBracket limit .list bs
    | some '{' => enterBracket limit .object bs
    | some c =>
      if c.isDigit then
        skipNumber
        closeBrackets limit bs
      else failAhead .valueExpected
  match next with
  | none => pure ()
  | some bs => skipWithin limit rounds bs

theorem skipWithin_list : skipWithin limit (rounds + 1) (.list :: bs) =
    skipFrom limit rounds (.list :: bs) := rfl

theorem skipWithin_nil : skipWithin limit (rounds + 1) [] = skipFrom limit rounds [] := rfl

theorem reads_skipWithin_object (hkey : Reads (skipKey limit) s () rest)
    (h : Reads (skipFrom limit rounds (.object :: bs)) rest () after) :
    Reads (skipWithin limit (rounds + 1) (.object :: bs)) s () after :=
  hkey.bind h

/-- What follows a value inside the brackets is passed over to the end of the outermost one. -/
def Goes (limit : Nat) (bs : List Bracket) (rest after : List Char) : Prop :=
  ∀ rounds, rest.length < rounds → Reads (skipAfter limit rounds bs) rest () after

theorem goes_nil (limit : Nat) (rest : List Char) : Goes limit [] rest rest := by
  intro rounds _
  cases limit <;> exact (Reads.pure none rest).bind (.pure () rest)

/-- The end of a bracket. -/
def Bracket.closing : Bracket → Char
  | .list => ']'
  | .object => '}'

theorem Goes.closing (b : Bracket) (hlimit : bs.length < limit) (h : Goes limit bs rest after) :
    Goes limit (b :: bs) (b.closing :: rest) after := by
  intro rounds hrounds
  obtain ⟨limit, rfl⟩ := Nat.exists_eq_add_one_of_ne_zero (Nat.ne_zero_of_lt hlimit)
  have hclose : closeBrackets limit bs = closeBrackets (limit + 1) bs :=
    closeBrackets_congr (by omega) (by omega)
  have hafter := h rounds (by simp at hrounds; omega)
  rw [skipAfter, ← hclose] at hafter
  cases b <;>
    exact ((reads_skipBlank rfl rest).bind (.assoc ((reads_skip _ rest).bind hafter))).assoc

/-- After a comma the next value inside the same brackets is passed over. -/
theorem reads_skipAfter_comma {b : Bracket} (hlimit : limit ≠ 0)
    (h : Reads (skipWithin limit rounds (b :: bs)) s () after) :
    Reads (skipAfter limit rounds (b :: bs)) (',' :: s) () after := by
  obtain ⟨limit, rfl⟩ := Nat.exists_eq_succ_of_ne_zero hlimit
  exact ((reads_skipBlank rfl s).bind (.assoc ((reads_skip ',' s).bind h))).assoc

theorem reads_skipKey {k : String} (hlimit : k.toList.length ≤ limit) (rest : List Char) :
    Reads (skipKey limit) (stringChars k ++ ':' :: rest) () rest := by
  have htext : stringChars k ++ ':' :: rest =
      '"' :: (k.toList.flatMap escaped ++ '"' :: ':' :: rest) := by
    simp [stringChars]
  rw [htext]
  exact (reads_skipBlank rfl _).bind ((reads_skip '"' _).bind
    ((reads_skipString (by omega) _).bind (reads_colon rest)))

end Reader

theorem Unsigned.exists_cons {cs : List Char} (h : Unsigned cs) :
    ∃ c cs', cs = c :: cs' ∧ c.isDigit = true := by
  have hwhole : ∀ ws, Whole ws → ∃ c cs', ws = c :: cs' ∧ c.isDigit = true := by
    rintro ws (rfl | ⟨hws, -⟩)
    · exact ⟨'0', [], rfl, rfl⟩
    · obtain ⟨c, cs', rfl⟩ := List.exists_cons_of_ne_nil hws.nonempty
      exact ⟨c, cs', rfl, hws.digits c List.mem_cons_self⟩
  have hmantissa : ∀ ws, Mantissa ws → ∃ c cs', ws = c :: cs' ∧ c.isDigit = true := by
    rintro ws (hws | ⟨hws, -⟩)
    · exact hwhole _ hws
    · obtain ⟨c, cs', rfl, hc⟩ := hwhole _ hws
      exact ⟨c, _, rfl, hc⟩
  rcases h with hcs | ⟨hcs, -, -⟩
  · exact hmantissa _ hcs
  · obtain ⟨c, cs', rfl, hc⟩ := hmantissa _ hcs
    exact ⟨c, _, rfl, hc⟩

/-- A printed number is null, or a number with its sign. -/
theorem chars_number (n : Number) :
    n.chars = ['n', 'u', 'l', 'l'] ∨ ∃ cs, Unsigned cs ∧ (n.chars = cs ∨ n.chars = '-' :: cs) := by
  cases n with
  | float x => exact chars_double x
  | int n =>
    refine .inr ⟨_, .plain (.whole (whole_digitsOf n.natAbs)), ?_⟩
    simp only [Number.chars, Number.intChars]
    split
    · exact .inr rfl
    · exact .inl rfl

/-- The text of a value starts with a character that is neither blank nor the end of a bracket. -/
theorem exists_chars (v : Json) :
    ∃ c cs, v.chars = c :: cs ∧ Reader.isBlank c = false ∧ c ≠ ']' ∧ c ≠ '}' := by
  cases v with
  | null => exact ⟨'n', _, rfl, rfl, by decide, by decide⟩
  | bool b =>
    cases b
    · exact ⟨'f', _, rfl, rfl, by decide, by decide⟩
    · exact ⟨'t', _, rfl, rfl, by decide, by decide⟩
  | number n =>
    rcases chars_number n with hn | ⟨cs, hcs, hn | hn⟩
    · exact ⟨'n', _, hn, rfl, by decide, by decide⟩
    · obtain ⟨c, cs, rfl, hc⟩ := hcs.exists_cons
      refine ⟨c, cs, hn, Reader.not_isBlank_of_isDigit hc, ?_, ?_⟩ <;> (rintro rfl; cases hc)
    · exact ⟨'-', _, hn, rfl, by decide, by decide⟩
  | string s => exact ⟨'"', _, rfl, rfl, by decide, by decide⟩
  | array xs => exact ⟨'[', _, rfl, rfl, by decide, by decide⟩
  | object ms => exact ⟨'{', _, rfl, rfl, by decide, by decide⟩

namespace Reader

variable {limit rounds : Nat} {bs : List Bracket} {rest after : List Char}

/-- **A number is passed over**, and what follows it. -/
theorem reads_skipFrom_number {n : Number} (hrest : Ends rest)
    (h : Reads (skipAfter limit rounds bs) rest () after) :
    Reads (skipFrom limit rounds bs) (n.chars ++ rest) () after := by
  rcases chars_number n with hn | ⟨cs, hcs, hn | hn⟩ <;> rw [hn]
  · exact (reads_skipBlank rfl _).bind ((reads_skip 'n' _).bind
      ((reads_expectWord ['u', 'l', 'l'] rest).bind h))
  · have hnumber := reads_skipNumber hcs hrest
    obtain ⟨c, cs, rfl, hc⟩ := hcs.exists_cons
    refine (reads_skipBlank (not_isBlank_of_isDigit hc) _).bind ?_
    -- a digit is none of the characters with which other values start
    split
    case h_9 hd =>
      cases hd
      rw [if_pos hc]
      exact hnumber.bind h
    case h_1 hd => cases hd
    all_goals
      rename_i hd
      cases hd
      cases hc
  · exact (reads_skipBlank rfl _).bind ((reads_skip '-' _).bind
      ((reads_skipNumber hcs hrest).bind h))

/-- An opened bracket that is not closed at once. -/
theorem reads_enterBracket {c : Char} (hblank : isBlank c = false) (hlist : c ≠ ']')
    (hobject : c ≠ '}') (b : Bracket) (o : Char) (s : List Char) :
    Reads (enterBracket limit b bs) (o :: c :: s) (some (b :: bs)) (c :: s) := by
  refine (reads_skip o _).bind ((reads_skipBlank hblank _).bind ?_)
  split
  case h_5 => exact .pure _ _
  all_goals simp_all

theorem ends_continued {ts : List (List Char)} {c : Char} (hc : c = ']' ∨ c = '}') (rest : List Char) :
    Ends (continued ts ++ c :: rest) := by
  intro d hd
  cases ts with
  | nil =>
    cases hd
    exact .inr hc
  | cons t ts =>
    cases hd
    exact .inl rfl

theorem stringChars_append (s : String) (rest : List Char) :
    stringChars s ++ rest = '"' :: (s.toList.flatMap escaped ++ '"' :: rest) := by
  simp [stringChars]

theorem array_chars_append (x : Json) (xs : List Json) (rest : List Char) :
    (Json.array (x :: xs)).chars ++ rest =
      '[' :: (x.chars ++ (continued (elementChars xs) ++ ']' :: rest)) := by
  simp [chars, elementChars, joined_cons]

theorem object_chars_append (k : String) (x : Json) (ms : List (String × Json)) (rest : List Char) :
    (Json.object ((k, x) :: ms)).chars ++ rest =
      '{' :: (stringChars k ++ ':' :: (x.chars ++ (continued (memberChars ms) ++ '}' :: rest))) := by
  simp [chars, memberChars, joined_cons]

theorem continued_elements_append (x : Json) (xs : List Json) (s : List Char) :
    continued (elementChars (x :: xs)) ++ s =
      ',' :: (x.chars ++ (continued (elementChars xs) ++ s)) := by
  simp [elementChars, continued]

theorem continued_members_append (k : String) (x : Json) (ms : List (String × Json)) (s : List Char) :
    continued (memberChars ((k, x) :: ms)) ++ s =
      ',' :: (stringChars k ++ ':' :: (x.chars ++ (continued (memberChars ms) ++ s))) := by
  simp [memberChars, continued]

-- the induction is on the value, with one case more for what is left of an array and of an object;
-- both bounds fall with the text, and an open bracket costs the character that opened it

mutual

/-- **A value is passed over**, and what follows it. -/
theorem reads_skipFrom : (v : Json) → ∀ {rounds : Nat} {bs : List Bracket} {rest after : List Char},
    Ends rest → Goes limit bs rest after → bs.length + (v.chars ++ rest).length ≤ limit →
    (v.chars ++ rest).length ≤ rounds →
    Reads (skipFrom limit rounds bs) (v.chars ++ rest) () after
  | .null, rounds, bs, rest, after, _, h, _, hrounds =>
    (reads_skipBlank rfl _).bind ((reads_skip 'n' _).bind
      ((reads_expectWord ['u', 'l', 'l'] rest).bind (h rounds (by simp [chars] at hrounds; omega))))
  | .bool true, rounds, bs, rest, after, _, h, _, hrounds =>
    (reads_skipBlank rfl _).bind ((reads_skip 't' _).bind
      ((reads_expectWord ['r', 'u', 'e'] rest).bind (h rounds (by simp [chars] at hrounds; omega))))
  | .bool false, rounds, bs, rest, after, _, h, _, hrounds =>
    (reads_skipBlank rfl _).bind ((reads_skip 'f' _).bind
      ((reads_expectWord ['a', 'l', 's', 'e'] rest).bind
        (h rounds (by simp [chars] at hrounds; omega))))
  | .number n, rounds, bs, rest, after, hrest, h, _, hrounds => by
    obtain ⟨c, cs, hcs, -⟩ := exists_chars (.number n)
    rw [hcs] at hrounds
    exact reads_skipFrom_number hrest (h rounds (by simp at hrounds; omega))
  | .string s, rounds, bs, rest, after, _, h, hlimit, hrounds => by
    have hlength := length_le_stringChars s
    simp only [chars, List.length_append] at hlimit hrounds
    rw [chars, stringChars_append]
    exact (reads_skipBlank rfl _).bind ((reads_skip '"' _).bind
      ((reads_skipString (by omega) rest).bind (h rounds (by omega))))
  | .array [], rounds, bs, rest, after, _, h, _, hrounds => by
    have hafter := h rounds (by simp [chars, elementChars, joined] at hrounds; omega)
    exact (reads_skipBlank rfl _).bind (.assoc ((reads_skip '[' _).bind
      (.assoc ((reads_skipBlank rfl rest).bind (.assoc ((reads_skip ']' rest).bind hafter))))))
  | .array (x :: xs), rounds, bs, rest, after, _, h, hlimit, hrounds => by
    obtain ⟨c, cs, hcs, hblank, hlist, hobject⟩ := exists_chars x
    rw [array_chars_append, List.length_cons] at hlimit hrounds
    rw [array_chars_append]
    obtain ⟨rounds, rfl⟩ : ∃ n, rounds = n + 1 := Nat.exists_eq_add_one_of_ne_zero (by omega)
    have hvalue : Reads (skipFrom limit rounds (.list :: bs)) _ () after :=
      reads_skipFrom x (ends_continued (.inl rfl) rest)
        (goes_elements xs h (by simp at hlimit ⊢; omega)) (by simp at hlimit ⊢; omega) (by omega)
    rw [← skipWithin_list, hcs] at hvalue
    rw [hcs]
    exact (reads_skipBlank rfl _).bind
      ((reads_enterBracket hblank hlist hobject .list '[' _).bind hvalue)
  | .object [], rounds, bs, rest, after, _, h, _, hrounds => by
    have hafter := h rounds (by simp [chars, memberChars, joined] at hrounds; omega)
    exact (reads_skipBlank rfl _).bind (.assoc ((reads_skip '{' _).bind
      (.assoc ((reads_skipBlank rfl rest).bind (.assoc ((reads_skip '}' rest).bind hafter))))))
  | .object ((k, x) :: ms), rounds, bs, rest, after, _, h, hlimit, hrounds => by
    have hlength := length_le_stringChars k
    rw [object_chars_append, List.length_cons, List.length_append, List.length_cons] at hlimit hrounds
    rw [object_chars_append]
    obtain ⟨rounds, rfl⟩ : ∃ n, rounds = n + 1 := Nat.exists_eq_add_one_of_ne_zero (by omega)
    have hvalue : Reads (skipFrom limit rounds (.object :: bs)) _ () after :=
      reads_skipFrom x (ends_continued (.inr rfl) rest)
        (goes_members ms h (by simp at hlimit ⊢; omega)) (by simp at hlimit ⊢; omega) (by omega)
    have hkey : k.toList.length ≤ limit := by omega
    have hmember := reads_skipWithin_object (reads_skipKey hkey _) hvalue
    rw [stringChars_append] at hmember ⊢
    exact (reads_skipBlank rfl _).bind
      ((reads_enterBracket rfl (by decide) (by decide) .object '{' _).bind hmember)

/-- Further elements of an array are passed over, and what follows the array. -/
theorem goes_elements : (xs : List Json) → ∀ {bs : List Bracket} {rest after : List Char},
    Goes limit bs rest after →
    bs.length + (continued (elementChars xs) ++ ']' :: rest).length ≤ limit →
    Goes limit (.list :: bs) (continued (elementChars xs) ++ ']' :: rest) after
  | [], bs, rest, after, h, hlimit => h.closing .list (by simp at hlimit; omega)
  | x :: xs, bs, rest, after, h, hlimit => by
    intro rounds hrounds
    rw [continued_elements_append, List.length_cons] at hlimit hrounds
    rw [continued_elements_append]
    obtain ⟨rounds, rfl⟩ : ∃ n, rounds = n + 1 := Nat.exists_eq_add_one_of_ne_zero (by omega)
    refine reads_skipAfter_comma (by omega) ?_
    rw [skipWithin_list]
    exact reads_skipFrom x (ends_continued (.inl rfl) rest)
      (goes_elements xs h (by simp at hlimit ⊢; omega)) (by simp at hlimit ⊢; omega) (by omega)

/-- Further members of an object are passed over, and what follows the object. -/
theorem goes_members : (ms : List (String × Json)) → ∀ {bs : List Bracket} {rest after : List Char},
    Goes limit bs rest after →
    bs.length + (continued (memberChars ms) ++ '}' :: rest).length ≤ limit →
    Goes limit (.object :: bs) (continued (memberChars ms) ++ '}' :: rest) after
  | [], bs, rest, after, h, hlimit => h.closing .object (by simp at hlimit; omega)
  | (k, x) :: ms, bs, rest, after, h, hlimit => by
    intro rounds hrounds
    have hlength := length_le_stringChars k
    rw [continued_members_append, List.length_cons, List.length_append, List.length_cons]
      at hlimit hrounds
    rw [continued_members_append]
    obtain ⟨rounds, rfl⟩ : ∃ n, rounds = n + 1 := Nat.exists_eq_add_one_of_ne_zero (by omega)
    refine reads_skipAfter_comma (by omega)
      (reads_skipWithin_object (reads_skipKey (by omega) _) ?_)
    exact reads_skipFrom x (ends_continued (.inr rfl) rest)
      (goes_members ms h (by simp at hlimit ⊢; omega)) (by simp at hlimit ⊢; omega) (by omega)

end

/-- **Any value is passed over**, however deep it is nested. -/
theorem reads_skipValue (v : Json) {rest : List Char} (hrest : Ends rest)
    (hlimit : (v.chars ++ rest).length ≤ limit) :
    Reads (skipValue limit) (v.chars ++ rest) () rest := by
  rw [skipValue, skipWithin_nil]
  exact reads_skipFrom v hrest (goes_nil limit rest) (by simpa using hlimit) hlimit

end Reader

end Json

end ObjectFeed
