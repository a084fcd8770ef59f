import ObjectFeed.Proofs.Settings
import ObjectFeed.Text.Blank

/-!
# Values are read back

The text of a value is read back as that value, if nothing is lost in it: its integers fit 64 bits,
it has no binary numbers, the members of its objects are in the order in which they are kept, and it
is nested no deeper than a reader goes.

* `Plain`: the values whose texts keep them.
* `Reader.Takes`: a reader takes a value from its text.
* `Reader.reads_elements`, `Reader.reads_members`: one lemma for each loop of the reader.
* `Plain.takes`, `Plain.parse_chars`: **the text of a value is parsed as the value.**
* `Plain.newline_notMem`, `Plain.trim_chars`: a text has no line end in it, and no blanks around it.
-/

namespace ObjectFeed

/-- Nothing is trimmed where the two ends are not blank. -/
theorem Text.trim_eq_self {s : List Char} (hfirst : ∀ c ∈ s.head?, isBlank c = false)
    (hlast : ∀ c ∈ s.getLast?, isBlank c = false) : trim s = s := by
  have hstart : ∀ t : List Char, (∀ c ∈ t.head?, isBlank c = false) → trimStart t = t := by
    intro t ht
    cases t with
    | nil => rfl
    | cons c t => exact List.dropWhile_cons_of_neg (by simp [ht c rfl])
  unfold trim
  rw [hstart s hfirst, hstart s.reverse (by rwa [List.head?_reverse]), List.reverse_reverse]

namespace Members

variable {α : Type} {acc ms : Members α}

/-- A member with the greatest key comes last. -/
theorem insert_last {m : String × α} (h : Sorted (acc ++ [m])) :
    acc.insert m.1 m.2 = acc ++ [m] := by
  induction acc with
  | nil => rfl
  | cons b acc ih =>
    obtain ⟨hb, htail⟩ := List.pairwise_cons.1 h
    have hlt : b.1 < m.1 := hb m (by simp)
    have hne : m.1 ≠ b.1 := (String.ne_of_lt hlt).symm
    have hnotlt : ¬ m.1 < b.1 := String.lt_asymm hlt
    simp only [insert, if_neg hnotlt, if_neg hne, ih htail, List.cons_append]

/-- Members that are sorted are kept as they are. -/
theorem foldl_insert (h : Sorted (acc ++ ms)) :
    ms.foldl (fun acc m => acc.insert m.1 m.2) acc = acc ++ ms := by
  induction ms generalizing acc with
  | nil => rw [List.append_nil, List.foldl_nil]
  | cons m ms ih =>
    have hsplit : acc ++ m :: ms = (acc ++ [m]) ++ ms := by simp
    rw [hsplit] at h ⊢
    have hfront : Sorted (acc ++ [m]) := (List.pairwise_append.1 h).1
    rw [List.foldl_cons, insert_last hfront, ih h]

end Members

namespace Json

/-- The values that their texts keep, with at most so many arrays and objects around one another. -/
inductive Plain : (nested : Nat) → Json → Prop where
  | null {nested : Nat} : Plain nested .null
  | bool {nested : Nat} (b : Bool) : Plain nested (.bool b)
  | int {nested : Nat} {n : Int} (hlow : -(pow2 63 : Int) ≤ n) (hhigh : n < pow2 64) :
    Plain nested (.number (.int n))
  | string {nested : Nat} (s : String) : Plain nested (.string s)
  | array {nested : Nat} {xs : List Json} (hxs : ∀ x ∈ xs, Plain nested x) :
    Plain (nested + 1) (.array xs)
  | object {nested : Nat} {ms : List (String × Json)} (hms : ∀ m ∈ ms, Plain nested m.2)
    (hkeys : Members.Sorted ms) : Plain (nested + 1) (.object ms)

namespace Reader

variable {limit rounds : Nat} {inner : Option (Reader Json)} {item : Reader Json} {rest : List Char}

/-- The reader of values takes the value from its text, whatever may follow a value. -/
def Takes (limit : Nat) (item : Reader Json) (v : Json) : Prop :=
  ∀ rest, Ends rest → (v.chars ++ rest).length ≤ limit → Reads item (v.chars ++ rest) v rest

theorem takes_null : Takes limit (valueWith limit inner) .null := by
  intro rest _ _
  exact (reads_skipBlank rfl _).bind ((reads_skip 'n' _).bind
    ((reads_expectWord ['u', 'l', 'l'] rest).bind (.pure _ rest)))

theorem takes_bool (b : Bool) : Takes limit (valueWith limit inner) (.bool b) := by
  intro rest _ _
  cases b with
  | false =>
    exact (reads_skipBlank rfl _).bind ((reads_skip 'f' _).bind
      ((reads_expectWord ['a', 'l', 's', 'e'] rest).bind (.pure _ rest)))
  | true =>
    exact (reads_skipBlank rfl _).bind ((reads_skip 't' _).bind
      ((reads_expectWord ['r', 'u', 'e'] rest).bind (.pure _ rest)))

theorem takes_int {n : Int} (hlow : -(pow2 63 : Int) ≤ n) (hhigh : n < pow2 64) :
    Takes limit (valueWith limit inner) (.number (.int n)) := by
  intro rest hrest hlimit
  have hchars : (Json.number (.int n)).chars = Number.intChars n := rfl
  rw [hchars, List.length_append] at hlimit
  rw [hchars]
  refine reads_signed hrest (by omega) hlow hhigh rfl (fun c hc => ?_) (.pure _ rest)
  -- a digit is none of the characters with which other values start
  split
  case h_9 hd =>
    cases hd
    rw [if_pos hc]
  case h_1 hd => cases hd
  all_goals
    rename_i hd
    cases hd
    cases hc

theorem takes_string (s : String) : Takes limit (valueWith limit inner) (.string s) := by
  intro rest _ hlimit
  have hlength := length_le_stringChars s
  rw [chars, List.length_append] at hlimit
  rw [chars, stringChars_append]
  exact (reads_skipBlank rfl _).bind ((reads_skip '"' _).bind
    ((reads_string (by omega) rest).bind (.pure _ rest)))

/-- The elements of an array, from its start or after some of them. -/
def spread (first : Bool) (xs : List Json) : List Char :=
  if first then joined (elementChars xs) else continued (elementChars xs)

/-- At most a comma precedes an element. -/
theorem length_le_spread (first : Bool) (x : Json) (xs : List Json) :
    (x.chars ++ continued (elementChars xs)).length ≤ (spread first (x :: xs)).length := by
  cases first with
  | false => exact Nat.le_succ _
  | true =>
    have hjoined : spread true (x :: xs) = x.chars ++ continued (elementChars xs) :=
      joined_cons x.chars (elementChars xs)
    exact Nat.le_of_eq (by rw [hjoined])

theorem reads_hasElement_spread (first : Bool) (x : Json) (xs : List Json) (s : List Char) :
    Reads (hasElement first) (spread first (x :: xs) ++ s) true
      (x.chars ++ (continued (elementChars xs) ++ s)) := by
  obtain ⟨c, cs, hcs, hblank, hlist, -⟩ := exists_chars x
  cases first with
  | false =>
    rw [spread, if_neg (by simp), continued_elements_append, hcs]
    refine (reads_skipBlank rfl _).bind ((reads_skip ',' _).bind
      ((reads_skipBlank hblank _).bind ?_))
    split
    · contradiction
    · rename_i hd
      exact absurd (Option.some.inj hd) hlist
    · exact .pure _ _
  | true =>
    have hjoined : joined (elementChars (x :: xs)) ++ s =
        x.chars ++ (continued (elementChars xs) ++ s) := by
      simp [elementChars, joined_cons]
    rw [spread, if_pos rfl, hjoined, hcs]
    refine (reads_skipBlank hblank _).bind ?_
    split
    · contradiction
    · rename_i hd
      exact absurd (Option.some.inj hd) hlist
    · exact .pure _ _

/-- **The elements of an array are read one after the other.** -/
theorem reads_elements {xs : List Json} (hxs : ∀ x ∈ xs, Takes limit item x) (first : Bool)
    (hlimit : (spread first xs ++ ']' :: rest).length ≤ limit)
    (hrounds : (spread first xs ++ ']' :: rest).length ≤ rounds) :
    Reads (elements item rounds first) (spread first xs ++ ']' :: rest) xs (']' :: rest) := by
  induction xs generalizing first rounds with
  | nil =>
    obtain ⟨rounds, rfl⟩ : ∃ n, rounds = n + 1 :=
      Nat.exists_eq_add_one_of_ne_zero (by simp at hrounds; omega)
    have hend : spread first [] ++ ']' :: rest = ']' :: rest := by cases first <;> rfl
    have hnone : Reads (hasElement first) (']' :: rest) false (']' :: rest) :=
      (reads_skipBlank rfl rest).bind (.pure false _)
    rw [hend]
    exact hnone.bind (.pure _ _)
  | cons x xs ih =>
    have hsome := reads_hasElement_spread first x xs (']' :: rest)
    have hends : Ends (continued (elementChars xs) ++ ']' :: rest) := ends_continued (.inl rfl) rest
    have hlength : (x.chars ++ (continued (elementChars xs) ++ ']' :: rest)).length ≤
        (spread first (x :: xs) ++ ']' :: rest).length := by
      have hspread := length_le_spread first x xs
      simp only [List.length_append] at hspread ⊢
      omega
    have hshort : (spread false xs ++ ']' :: rest).length <
        (x.chars ++ (continued (elementChars xs) ++ ']' :: rest)).length := by
      have hspread : spread false xs = continued (elementChars xs) := rfl
      obtain ⟨c, cs, hcs, -⟩ := exists_chars x
      simp only [hspread, hcs, List.cons_append, List.length_cons, List.length_append]
      omega
    obtain ⟨rounds, rfl⟩ : ∃ n, rounds = n + 1 := Nat.exists_eq_add_one_of_ne_zero (by omega)
    have hx := hxs x List.mem_cons_self _ hends (by omega)
    have hrest := ih (fun x hx => hxs x (List.mem_cons_of_mem _ hx)) false (by omega)
      (show _ ≤ rounds by omega)
    exact hsome.bind (hx.bind (hrest.bind (.pure _ _)))

/-- **The members of an object are read one after the other.** -/
theorem reads_members {ms acc : List (String × Json)} (hms : ∀ m ∈ ms, Takes limit item m.2)
    (first : Bool) (hlimit : (listed first ms ++ '}' :: rest).length ≤ limit)
    (hrounds : (listed first ms ++ '}' :: rest).length ≤ rounds) :
    Reads (members limit item rounds first acc) (listed first ms ++ '}' :: rest)
      (ms.foldl (fun acc m => Members.insert m.1 m.2 acc) acc) ('}' :: rest) := by
  induction ms generalizing first rounds acc with
  | nil =>
    obtain ⟨rounds, rfl⟩ : ∃ n, rounds = n + 1 :=
      Nat.exists_eq_add_one_of_ne_zero (by simp at hrounds; omega)
    have hend : listed first [] ++ '}' :: rest = '}' :: rest := by cases first <;> rfl
    rw [hend]
    exact (reads_hasKey_end first rest).bind (.pure _ _)
  | cons m ms ih =>
    obtain ⟨k, x⟩ := m
    have hkey := reads_hasKey_listed first k x ms ('}' :: rest)
    have hlength := length_listed first k x ms ('}' :: rest)
    have hstring := length_le_stringChars k
    have hends : Ends (continued (memberChars ms) ++ '}' :: rest) := ends_continued (.inr rfl) rest
    have hshort : (listed false ms ++ '}' :: rest).length ≤
        (x.chars ++ (continued (memberChars ms) ++ '}' :: rest)).length := by simp [listed]
    obtain ⟨rounds, rfl⟩ : ∃ n, rounds = n + 1 := Nat.exists_eq_add_one_of_ne_zero (by omega)
    have htakes : Takes limit item x := hms _ List.mem_cons_self
    have hx := htakes _ hends (by omega)
    have hrest : Reads (members limit item rounds false (Members.insert k x acc)) _ _ ('}' :: rest) :=
      ih (fun m hm => hms m (List.mem_cons_of_mem _ hm)) false (by omega) (by omega)
    rw [stringChars_append] at hkey
    exact hkey.bind ((reads_skip '"' _).bind ((reads_string (by omega) _).bind
      ((reads_colon _).bind (hx.bind hrest))))

end Reader

open Reader

variable {limit nested : Nat} {v : Json}

/-- What is read however deep values may be nested in it. -/
theorem Reader.takes_value (h : ∀ inner, Takes limit (valueWith limit inner) v) (nested : Nat) :
    Takes limit (value limit nested) v := by
  cases nested with
  | zero => exact h none
  | succ nested => exact h (some (value limit nested))

/-- **The text of a value is read as the value.** -/
theorem Plain.takes (h : Plain nested v) : Takes limit (value limit nested) v := by
  induction h with
  | null => exact takes_value (fun _ => takes_null) _
  | bool b => exact takes_value (fun _ => takes_bool b) _
  | int hlow hhigh => exact takes_value (fun _ => takes_int hlow hhigh) _
  | string s => exact takes_value (fun _ => takes_string s) _
  | @array nested xs _ ih =>
    intro rest _ hlimit
    have htext : (Json.array xs).chars ++ rest = '[' :: (spread true xs ++ ']' :: rest) := by
      simp [chars, spread]
    rw [htext, List.length_cons] at hlimit
    rw [htext]
    have hxs : Reads (elements (value limit nested) (limit + 1) true) _ xs (']' :: rest) :=
      reads_elements ih true (by omega) (by omega)
    have hend : Reads endList (']' :: rest) () rest :=
      (reads_skipBlank rfl rest).bind (reads_skip ']' rest)
    exact (reads_skipBlank rfl _).bind ((reads_skip '[' _).bind
      (hxs.bind (hend.bind (.pure _ rest))))
  | @object nested ms _ hkeys ih =>
    intro rest _ hlimit
    have htext : (Json.object ms).chars ++ rest = '{' :: (listed true ms ++ '}' :: rest) := by
      simp [chars, listed]
    rw [htext, List.length_cons] at hlimit
    rw [htext]
    have hms : Reads (members limit (value limit nested) (limit + 1) true []) _ _ ('}' :: rest) :=
      reads_members ih true (by omega) (by omega)
    have hsorted : Members.Sorted ([] ++ ms) := hkeys
    rw [Members.foldl_insert hsorted, List.nil_append] at hms
    exact (reads_skipBlank rfl _).bind ((reads_skip '{' _).bind
      (hms.bind ((reads_endObject rest).bind (.pure _ rest))))

/-- **The text of a value is parsed as the value.** -/
theorem Plain.parse_chars (h : Plain maxNested v) : parse v.chars = .ok v := by
  have htakes : Takes v.chars.length (value v.chars.length maxNested) v := h.takes
  have hread := htakes [] (by intro c hc; cases hc) (by simp)
  rw [List.append_nil] at hread
  exact hread.run

theorem memberChars_eq_map (ms : List (String × Json)) :
    memberChars ms = ms.map fun m => stringChars m.1 ++ ':' :: m.2.chars := by
  induction ms with
  | nil => rfl
  | cons m ms ih => rw [memberChars, ih, List.map_cons]

theorem elementChars_eq_map (xs : List Json) : elementChars xs = xs.map chars := by
  induction xs with
  | nil => rfl
  | cons x xs ih => rw [elementChars, ih, List.map_cons]

theorem newline_notMem_escaped (c : Char) : '\n' ∉ escaped c := by
  intro hmem
  rcases escaped_cases c with ⟨he, -, -, hcontrol⟩ | ⟨l, he, -, hl⟩ | ⟨a, b, he, hcode, -⟩ <;>
    rw [he] at hmem
  · rw [← List.mem_singleton.1 hmem] at hcontrol
    exact hcontrol (by decide)
  · obtain rfl : '\n' = l := by simpa using hmem
    cases hl
  · have hdigit : '\n' = a ∨ '\n' = b := by simpa using hmem
    rcases hdigit with rfl | rfl
    · cases hcode
    · simp [hexQuad?, hexValue?] at hcode

theorem newline_notMem_stringChars (s : String) : '\n' ∉ stringChars s := by
  have hall : '\n' ∉ s.toList.flatMap escaped := by
    intro hmem
    obtain ⟨c, -, hc⟩ := List.mem_flatMap.1 hmem
    exact newline_notMem_escaped c hc
  simp [stringChars, hall]

theorem newline_notMem_joined {ts : List (List Char)} (h : ∀ t ∈ ts, '\n' ∉ t) :
    '\n' ∉ joined ts := by
  cases ts with
  | nil => simp [joined]
  | cons t ts =>
    have hfirst := h t List.mem_cons_self
    have hrest : '\n' ∉ continued ts := by
      intro hmem
      obtain ⟨u, hu, hcomma⟩ := List.mem_flatMap.1 hmem
      have hin : '\n' ∈ u := by simpa using hcomma
      exact h u (List.mem_cons_of_mem _ hu) hin
    rw [joined_cons, List.mem_append]
    exact not_or.2 ⟨hfirst, hrest⟩

theorem isDigit_or_minus_of_mem_intChars {n : Int} {c : Char} (h : c ∈ Number.intChars n) :
    c = '-' ∨ c.isDigit = true := by
  unfold Number.intChars at h
  by_cases hneg : n < 0
  · rw [if_pos hneg] at h
    rcases List.mem_cons.1 h with rfl | hdigit
    · exact .inl rfl
    · exact .inr (isDigit_of_mem_digitsOf hdigit)
  · rw [if_neg hneg] at h
    exact .inr (isDigit_of_mem_digitsOf h)

/-- **The text of a value is on one line.** -/
theorem Plain.newline_notMem (h : Plain nested v) : '\n' ∉ v.chars := by
  induction h with
  | null => decide
  | bool b => cases b <;> decide
  | int _ _ =>
    intro hmem
    rcases isDigit_or_minus_of_mem_intChars hmem with he | hdigit
    · cases he
    · cases hdigit
  | string s => exact newline_notMem_stringChars s
  | array _ ih =>
    have hjoined := newline_notMem_joined (List.forall_mem_map.2 ih)
    rw [chars, elementChars_eq_map]
    simp [hjoined]
  | @object nested ms _ _ ih =>
    have hmember : ∀ m ∈ ms, '\n' ∉ stringChars m.1 ++ ':' :: m.2.chars := by
      intro m hm
      have hname := newline_notMem_stringChars m.1
      have hvalue := ih m hm
      simp [hname, hvalue]
    have hjoined := newline_notMem_joined (List.forall_mem_map.2 hmember)
    rw [chars, memberChars_eq_map]
    simp [hjoined]

/-- **The text of a value has no blanks around it.** -/
theorem Plain.trim_chars (h : Plain nested v) : Text.trim v.chars = v.chars := by
  have hbracketed : ∀ (a b : Char) (s : List Char), Text.isBlank a = false →
      Text.isBlank b = false → Text.trim (a :: s ++ [b]) = a :: s ++ [b] := by
    intro a b s ha hb
    refine Text.trim_eq_self ?_ ?_
    · intro c hc
      cases hc
      exact ha
    · intro c hc
      rw [List.getLast?_concat] at hc
      cases hc
      exact hb
  cases h with
  | null => decide
  | bool b => cases b <;> decide
  | @int _ n _ _ =>
    have hall : ∀ c ∈ Number.intChars n, Text.isBlank c = false := by
      intro c hc
      rcases isDigit_or_minus_of_mem_intChars hc with rfl | hdigit
      · decide
      · simp only [Char.isDigit, Bool.and_eq_true, decide_eq_true_eq] at hdigit
        have hlow : 48 ≤ c.toNat := hdigit.1
        have hhigh : c.toNat ≤ 57 := hdigit.2
        simp [Text.isBlank]
        omega
    exact Text.trim_eq_self (fun c hc => hall c (List.mem_of_head? hc))
      fun c hc => hall c (List.mem_of_getLast? hc)
  | string s => exact hbracketed '"' '"' _ (by decide) (by decide)
  | array _ => exact hbracketed '[' ']' _ (by decide) (by decide)
  | object _ _ => exact hbracketed '{' '}' _ (by decide) (by decide)

end Json

end ObjectFeed
