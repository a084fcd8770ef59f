import ObjectFeed.Json.Printer
import ObjectFeed.Json.Typed

/-!
# Reading what is printed

A reader takes a value from the start of a text and leaves the rest. Where the text is matters for
errors only, so what is read is said without places.

* `Reader.Reads`: what a reader takes and leaves; `Reads.bind` puts readers together, and
  `Reads.run` is for whole texts.
* `escaped_cases`: the ways to write a character.
* `Reader.reads_string`: **printed strings are read back.**
* `Ends`: what may follow a value.
* `Reader.reads_number`, `Reader.reads_signed`, `Reader.reads_integer`: **printed integers are read
  back.**
* `Reader.reads_text`, `Reader.reads_flag`, `Reader.reads_optional`, `Reader.reads_oneOf`: the same
  for the other values of a known type.
-/

namespace ObjectFeed.Json.Reader

variable {α β : Type}

/-- Wherever the text is, the reader takes the value from its start and leaves the rest. -/
def Reads (r : Reader α) (s : List Char) (x : α) (rest : List Char) : Prop :=
  ∀ p, ∃ p', r ⟨s, p⟩ = .ok (x, ⟨rest, p'⟩)

theorem Reads.pure (x : α) (s : List Char) : Reads (pure x) s x s := fun p => ⟨p, rfl⟩

theorem Reads.bind {r : Reader α} {f : α → Reader β} {s s' s'' : List Char} {x : α} {y : β}
    (h : Reads r s x s') (hf : Reads (f x) s' y s'') : Reads (r >>= f) s y s'' := by
  intro p
  obtain ⟨p', hr⟩ := h p
  obtain ⟨q, hq⟩ := hf p'
  refine ⟨q, ?_⟩
  show (r ⟨s, p⟩).bind (fun a => f a.1 a.2) = _
  rw [hr]
  exact hq

theorem Reads.congr {r : Reader α} {s rest : List Char} {x y : α} (h : Reads r s x rest)
    (hx : x = y) : Reads r s y rest := hx ▸ h

theorem Reads.assoc {γ : Type} {r : Reader α} {f : α → Reader β} {g : β → Reader γ} {s s' : List Char}
    {y : γ} (h : Reads (r >>= fun x => f x >>= g) s y s') : Reads (r >>= f >>= g) s y s' := by
  rwa [bind_assoc]

theorem reads_peek (s : List Char) : Reads peek s s.head? s := fun p => ⟨p, rfl⟩

theorem reads_skip (c : Char) (s : List Char) : Reads skip (c :: s) () s := fun _ => ⟨_, rfl⟩

theorem reads_takeWhile (p : Char → Bool) (s : List Char) :
    Reads (takeWhile p) s (s.takeWhile p) (s.dropWhile p) := fun _ => ⟨_, rfl⟩

theorem reads_takeWhile_append {p : Char → Bool} {s rest : List Char} (h : ∀ c ∈ s, p c = true)
    (hrest : ∀ c ∈ rest.head?, p c = false) : Reads (takeWhile p) (s ++ rest) s rest := by
  have hstop : rest.takeWhile p = [] ∧ rest.dropWhile p = rest := by
    cases rest with
    | nil => exact ⟨rfl, rfl⟩
    | cons c rest =>
      have hc : ¬ p c = true := by simp [hrest c rfl]
      exact ⟨List.takeWhile_cons_of_neg hc, List.dropWhile_cons_of_neg hc⟩
  have htake := reads_takeWhile p (s ++ rest)
  rwa [List.takeWhile_append_of_pos h, List.dropWhile_append_of_pos h, hstop.1, hstop.2,
    List.append_nil] at htake

/-- What is not blank stays. -/
theorem reads_skipBlank {c : Char} (hc : isBlank c = false) (s : List Char) :
    Reads skipBlank (c :: s) (some c) (c :: s) :=
  (reads_takeWhile_append (s := []) (by simp) (by simpa using hc)).bind (reads_peek _)

theorem reads_skipBlank_nil : Reads skipBlank [] none [] :=
  (reads_takeWhile isBlank []).bind (reads_peek _)

theorem reads_expectWord (ws s : List Char) : Reads (expectWord ws) (ws ++ s) () s := by
  induction ws with
  | nil => exact .pure () s
  | cons w ws ih =>
    refine (reads_peek _).bind ?_
    simp only [List.cons_append, List.head?_cons, if_true]
    exact (reads_skip w _).bind ih

theorem Reads.value {r : Reader α} {s rest : List Char} {x : α} (h : Reads r s x rest) :
    (r ⟨s, {}⟩).map (·.1) = .ok x := by
  obtain ⟨p, hp⟩ := h {}
  rw [hp]
  rfl

/-- What a reader takes from a whole text is its value. -/
theorem Reads.run {r : Reader α} {s : List Char} {x : α} (h : Reads r s x []) :
    Reader.run r s = .ok x :=
  (h.bind (reads_skipBlank_nil.bind (.pure x []))).value

theorem reads_colon (s : List Char) : Reads colon (':' :: s) () s :=
  (reads_skipBlank rfl s).bind (reads_skip ':' s)

theorem reads_endObject (s : List Char) : Reads endObject ('}' :: s) () s :=
  (reads_skipBlank rfl s).bind (reads_skip '}' s)

theorem reads_hasKey_end (first : Bool) (s : List Char) :
    Reads (hasKey first) ('}' :: s) false ('}' :: s) :=
  (reads_skipBlank rfl s).bind (.pure false _)

theorem reads_hasKey_first (s : List Char) : Reads (hasKey true) ('"' :: s) true ('"' :: s) :=
  (reads_skipBlank rfl s).bind (.pure true _)

theorem reads_hasKey_next (s : List Char) :
    Reads (hasKey false) (',' :: '"' :: s) true ('"' :: s) := by
  exact (reads_skipBlank rfl _).bind
    ((reads_skip ',' _).bind ((reads_skipBlank rfl s).bind (.pure true _)))

/-- The ways in which a character is written: by itself, with a letter or with a code. -/
theorem escaped_cases (c : Char) :
    (escaped c = [c] ∧ c ≠ '"' ∧ c ≠ '\\' ∧ ¬ c.toNat < 0x20) ∨
      (∃ l, escaped c = ['\\', l] ∧ l ≠ 'u' ∧ unescape? l = some c) ∨
        ∃ a b, escaped c = ['\\', 'u', '0', '0', a, b] ∧ hexQuad? '0' '0' a b = some c.toNat ∧
          c.toNat < 0x20 := by
  by_cases hletter : c = '"' ∨ c = '\\' ∨ c = '\x08' ∨ c = '\x0c' ∨ c = '\n' ∨ c = '\r' ∨ c = '\t'
  · refine .inr (.inl ?_)
    rcases hletter with rfl | rfl | rfl | rfl | rfl | rfl | rfl <;>
      exact ⟨_, rfl, by decide, rfl⟩
  · simp only [not_or] at hletter
    by_cases hcontrol : c.toNat < 0x20
    · have hcodes : ∀ n < 0x20,
          hexQuad? '0' '0' (Nat.digitChar (n / 16)) (Nat.digitChar (n % 16)) = some n := by decide
      refine .inr (.inr ⟨_, _, ?_, hcodes _ hcontrol, hcontrol⟩)
      simp only [escaped, hletter, hcontrol, if_false, if_true]
    · refine .inl ⟨?_, hletter.1, hletter.2.1, hcontrol⟩
      simp only [escaped, hletter, hcontrol, if_false]

theorem length_le_stringChars (s : String) : s.toList.length + 2 ≤ (stringChars s).length := by
  have hone : ∀ c, 1 ≤ (escaped c).length := by
    intro c
    rcases escaped_cases c with ⟨he, -⟩ | ⟨l, he, -⟩ | ⟨a, b, he, -⟩ <;> simp [he]
  have hall : s.toList.length ≤ (s.toList.flatMap escaped).length := by
    induction s.toList with
    | nil => exact Nat.le_refl 0
    | cons c cs ih =>
      have hc := hone c
      simp only [List.flatMap_cons, List.length_append, List.length_cons]
      omega
  simp only [stringChars, List.length_cons, List.length_append, List.length_nil]
  omega

theorem reads_hexEscape {a b : Char} {n : Nat} (h : hexQuad? '0' '0' a b = some n)
    (s : List Char) : Reads hexEscape ('0' :: '0' :: a :: b :: s) n s := by
  intro p
  refine ⟨p.advance ('0' :: '0' :: a :: b :: s) 4, ?_⟩
  simp only [hexEscape, of, h]

theorem reads_escape_letter {l c : Char} (hl : l ≠ 'u') (h : unescape? l = some c) (s : List Char) :
    Reads escape (l :: s) c s := by
  refine (reads_peek _).bind ?_
  rw [List.head?_cons]
  split
  · contradiction
  · rename_i hu
    exact absurd (Option.some.inj hu) hl
  · rename_i d _ hd
    cases hd
    rw [h]
    exact (reads_skip l s).bind (.pure c s)

theorem reads_escape_code {a b c : Char} (h : hexQuad? '0' '0' a b = some c.toNat)
    (hc : c.toNat < 0x20) (s : List Char) :
    Reads escape ('u' :: '0' :: '0' :: a :: b :: s) c s := by
  refine (reads_peek _).bind ((reads_skip 'u' _).bind ((reads_hexEscape h s).bind ?_))
  have hlow : isLowSurrogate c.toNat = false := by
    simp [isLowSurrogate]
    omega
  have hhigh : isHighSurrogate c.toNat = false := by
    simp [isHighSurrogate]
    omega
  rw [hlow, hhigh, if_neg (by simp), if_neg (by simp), Char.ofNat_toNat]
  exact .pure c s

/-- A reader of strings takes off the escapes. -/
theorem reads_stringRest (limit : Nat) (acc s rest : List Char) (h : s.length < limit) :
    Reads (stringRest limit acc) (s.flatMap escaped ++ '"' :: rest)
      (String.ofList (acc.reverse ++ s)) rest := by
  induction s generalizing limit acc with
  | nil =>
    obtain ⟨limit, rfl⟩ := Nat.exists_eq_add_one_of_ne_zero (Nat.ne_zero_of_lt h)
    refine (reads_peek _).bind ((reads_skip '"' rest).bind ?_)
    rw [List.append_nil]
    exact .pure _ rest
  | cons c s ih =>
    obtain ⟨limit, rfl⟩ := Nat.exists_eq_add_one_of_ne_zero (Nat.ne_zero_of_lt h)
    have hrest := ih limit (c :: acc) (by simpa using h)
    rw [List.reverse_cons, List.append_assoc, List.singleton_append] at hrest
    rw [List.flatMap_cons, List.append_assoc]
    -- the character is written by itself, with a letter or with a code
    rcases escaped_cases c with ⟨he, hquote, hbackslash, hcontrol⟩ | ⟨l, he, hl, hc⟩ |
      ⟨a, b, he, hc, hcontrol⟩ <;> rw [he]
    · refine (reads_peek _).bind ?_
      rw [List.singleton_append, List.head?_cons]
      split
      · contradiction
      · rename_i hd
        exact absurd (Option.some.inj hd) hquote
      · rename_i hd
        exact absurd (Option.some.inj hd) hbackslash
      · rename_i d _ _ hd
        cases hd
        rw [if_neg hcontrol]
        exact (reads_skip c _).bind hrest
    · exact (reads_peek _).bind ((reads_skip '\\' _).bind ((reads_escape_letter hl hc _).bind hrest))
    · exact (reads_peek _).bind
        ((reads_skip '\\' _).bind ((reads_escape_code hc hcontrol _).bind hrest))

/-- **A printed string is read back.** -/
theorem reads_string {limit : Nat} {s : String} (h : s.toList.length ≤ limit) (rest : List Char) :
    Reads (string limit) (s.toList.flatMap escaped ++ '"' :: rest) s rest := by
  have hstring := reads_stringRest (limit + 1) [] s.toList rest (by omega)
  rwa [List.reverse_nil, List.nil_append, String.ofList_toList] at hstring

end Reader

/-- What may follow a value: nothing, a comma or the end of what it is in. -/
def Ends (rest : List Char) : Prop := ∀ c ∈ rest.head?, c = ',' ∨ c = ']' ∨ c = '}'

theorem Ends.not_isDigit {rest : List Char} (h : Ends rest) : ∀ c ∈ rest.head?, c.isDigit = false := by
  intro c hc
  rcases h c hc with rfl | rfl | rfl <;> rfl

theorem isDigit_of_mem_digitsOf {n : Nat} {c : Char} (h : c ∈ Decimal.digitsOf n) :
    c.isDigit = true :=
  Nat.isDigit_of_mem_toDigits (by decide) (by decide) h

theorem exists_digitsOf (n : Nat) : ∃ c cs, Decimal.digitsOf n = c :: cs ∧ c.isDigit = true := by
  obtain ⟨c, cs, hcs⟩ : ∃ c cs, Decimal.digitsOf n = c :: cs :=
    List.exists_cons_of_ne_nil Nat.toDigits_ne_nil
  exact ⟨c, cs, hcs, isDigit_of_mem_digitsOf (hcs ▸ List.mem_cons_self)⟩

/-- A positive number has no leading zeros. -/
theorem exists_digitsOf_of_ne_zero {n : Nat} (hn : n ≠ 0) :
    ∃ c cs, Decimal.digitsOf n = c :: cs ∧ c ≠ '0' := by
  induction n using Nat.strongRecOn with
  | _ n ih =>
  unfold Decimal.digitsOf at ih ⊢
  by_cases hlt : n < 10
  · refine ⟨_, _, Nat.toDigits_of_lt_base hlt, ?_⟩
    revert hn
    exact (by decide : ∀ n < 10, n ≠ 0 → Nat.digitChar n ≠ '0') n hlt
  · obtain ⟨c, cs, hcs, hc⟩ := ih (n / 10) (by omega) (by omega)
    have hsplit := Nat.toDigits_append_toDigits (b := 10) (n := n / 10) (d := n % 10) (by decide)
      (by omega) (by omega)
    rw [Nat.div_add_mod, hcs] at hsplit
    exact ⟨c, _, hsplit.symm, hc⟩

namespace Reader

theorem not_isBlank_of_isDigit {c : Char} (h : c.isDigit = true) : isBlank c = false := by
  cases hc : isBlank c with
  | false => rfl
  | true =>
    simp only [isBlank, Bool.or_eq_true, beq_iff_eq] at hc
    rcases hc with ((rfl | rfl) | rfl) | rfl <;> cases h

theorem le_ofDigitChars (ds : List Char) (m : Nat) : m ≤ Nat.ofDigitChars 10 ds m := by
  induction ds generalizing m with
  | nil => exact Nat.le_refl m
  | cons d ds ih =>
    calc m ≤ 10 * m + (d.toNat - '0'.toNat) := by omega
      _ ≤ Nat.ofDigitChars 10 (d :: ds) m := ih _

/-- Digits that fit are collected to the last. -/
theorem reads_collect {limit m n : Nat} {ds rest : List Char} (hds : ∀ d ∈ ds, d.isDigit = true)
    (hrest : ∀ c ∈ rest.head?, c.isDigit = false) (hlimit : ds.length ≤ limit)
    (hfit : Nat.ofDigitChars 10 ds m < significandLimit) :
    Reads (collect limit m n) (ds ++ rest) (Nat.ofDigitChars 10 ds m, n + ds.length) rest := by
  induction ds generalizing limit m n with
  | nil =>
    cases limit with
    | zero => exact .pure _ rest
    | succ limit =>
      refine (reads_peek _).bind ?_
      cases rest with
      | nil => exact .pure _ []
      | cons c rest =>
        rw [List.nil_append, List.head?_cons]
        simp only [hrest c rfl, Bool.false_and, Bool.false_eq_true, if_false]
        exact .pure _ _
  | cons d ds ih =>
    obtain ⟨limit, rfl⟩ := Nat.exists_eq_add_one_of_ne_zero (Nat.ne_zero_of_lt hlimit)
    have hstep : Nat.ofDigitChars 10 (d :: ds) m = Nat.ofDigitChars 10 ds (m * 10 + digitValue d) := by
      rw [Nat.mul_comm m 10]
      rfl
    rw [hstep] at hfit ⊢
    have hcollect := ih (fun d hd => hds d (List.mem_cons_of_mem _ hd)) (n := n + 1)
      (by simpa using hlimit) hfit
    have hcount : n + 1 + ds.length = n + (d :: ds).length := by
      rw [List.length_cons]
      omega
    rw [hcount] at hcollect
    refine (reads_peek _).bind ?_
    have hfirst : (d.isDigit && decide (m * 10 + digitValue d < significandLimit)) = true := by
      rw [hds d List.mem_cons_self, Bool.true_and, decide_eq_true_eq]
      exact Nat.lt_of_le_of_lt (le_ofDigitChars ds _) hfit
    simp only [List.cons_append, List.head?_cons, hfirst, if_true]
    exact (reads_skip d _).bind hcollect

theorem reads_afterWhole {limit : Nat} {negative : Bool} {m : Nat} {rest : List Char}
    (hrest : Ends rest) : Reads (afterWhole limit negative m) rest (whole negative m) rest := by
  refine (reads_peek _).bind ?_
  cases rest with
  | nil => exact .pure _ []
  | cons c rest =>
    rcases hrest c rfl with rfl | rfl | rfl <;> exact .pure _ _

/-- **The digits of a number are read back**, up to 64 bits. -/
theorem reads_number {limit m : Nat} (negative : Bool) {rest : List Char} (hrest : Ends rest)
    (hlimit : (Decimal.digitsOf m).length ≤ limit) (hfit : m < significandLimit) :
    Reads (number limit negative) (Decimal.digitsOf m ++ rest) (whole negative m) rest := by
  by_cases hm : m = 0
  · -- a zero stands alone, so no digit may follow it
    subst hm
    refine (reads_peek _).bind ((reads_skip '0' rest).bind ((reads_peek rest).bind ?_))
    cases rest with
    | nil => exact reads_afterWhole hrest
    | cons c rest =>
      simp only [List.head?_cons, hrest.not_isDigit c rfl, Bool.false_eq_true, if_false]
      exact reads_afterWhole hrest
  · have hvalue : Nat.ofDigitChars 10 (Decimal.digitsOf m) 0 = m := Nat.ofDigitChars_ten_toDigits
    have hcollect := reads_collect (n := 0) (fun d hd => isDigit_of_mem_digitsOf hd)
      hrest.not_isDigit hlimit (hvalue.symm ▸ hfit)
    rw [hvalue] at hcollect
    have htake := reads_takeWhile_append (s := []) (by simp) hrest.not_isDigit
    obtain ⟨c, cs, hcs, hc⟩ := exists_digitsOf_of_ne_zero hm
    have hdigit : c.isDigit = true := isDigit_of_mem_digitsOf (hcs ▸ List.mem_cons_self)
    rw [hcs] at hcollect ⊢
    refine (reads_peek _).bind ?_
    rw [List.cons_append, List.head?_cons]
    simp only [if_neg hc, hdigit, if_true]
    exact hcollect.bind (htake.bind (reads_afterWhole hrest))

/-- The sign and the digits of an integer spell it. -/
theorem whole_natAbs {n : Int} (h : -(pow2 63 : Int) ≤ n) :
    whole (decide (n < 0)) n.natAbs = .int n := by
  unfold whole
  by_cases hneg : n < 0
  · -- the least integer has the digits of a number that is one too large for 63 bits
    have hkept : ¬ (n.natAbs = 0 ∨ pow2 63 < n.natAbs) := by omega
    have hvalue : -(n.natAbs : Int) = n := by omega
    simp only [hneg, decide_true, Bool.not_true, Bool.false_eq_true, if_false, if_neg hkept, hvalue]
  · have hvalue : (n.natAbs : Int) = n := by omega
    simp only [hneg, decide_false, Bool.not_false, if_true, hvalue]

/-- An integer is read by its first character: after a sign, or from its first digit on. -/
theorem reads_signed {limit : Nat} {n : Int} {f : Option Char → Reader α} {g : Number → Reader α}
    {x : α} {rest : List Char} (hrest : Ends rest) (hlimit : (Number.intChars n).length ≤ limit)
    (hlow : -(pow2 63 : Int) ≤ n) (hhigh : n < pow2 64)
    (hminus : f (some '-') = skip >>= fun _ => number limit true >>= g)
    (hdigit : ∀ c, c.isDigit = true → f (some c) = number limit false >>= g)
    (hg : Reads (g (.int n)) rest x rest) :
    Reads (skipBlank >>= f) (Number.intChars n ++ rest) x rest := by
  have hwhole := whole_natAbs hlow
  have hfit : n.natAbs < significandLimit := by
    have hpow : pow2 63 < significandLimit := by decide
    have hbound : significandLimit = pow2 64 := rfl
    omega
  unfold Number.intChars at hlimit ⊢
  by_cases hneg : n < 0
  · rw [if_pos hneg, List.length_cons] at hlimit
    rw [if_pos hneg]
    have hnumber : Reads (number limit true) _ _ rest := reads_number true hrest (by omega) hfit
    rw [decide_eq_true hneg] at hwhole
    rw [hwhole] at hnumber
    refine (reads_skipBlank rfl _).bind ?_
    rw [hminus]
    exact (reads_skip '-' _).bind (hnumber.bind hg)
  · rw [if_neg hneg] at hlimit ⊢
    have hnumber : Reads (number limit false) _ _ rest := reads_number false hrest hlimit hfit
    rw [decide_eq_false hneg] at hwhole
    obtain ⟨c, cs, hcs, hc⟩ := exists_digitsOf n.natAbs
    rw [hwhole, hcs] at hnumber
    rw [hcs]
    refine (reads_skipBlank (not_isBlank_of_isDigit hc) _).bind ?_
    rw [hdigit c hc]
    exact hnumber.bind hg

/-- **A printed integer is read back**, in the range that is expected. -/
theorem reads_integer {limit : Nat} {n lo hi : Int} {expected : String} {rest : List Char}
    (hrest : Ends rest) (hlimit : (Number.intChars n).length ≤ limit) (hlo : lo ≤ n) (hhi : n ≤ hi)
    (hlow : -(pow2 63 : Int) ≤ n) (hhigh : n < pow2 64) :
    Reads (integer limit lo hi expected) (Number.intChars n ++ rest) n rest := by
  have hrange : Reads (inRange lo hi expected (.int n)) rest n rest := by
    rw [inRange, if_pos ⟨hlo, hhi⟩]
    exact .pure n rest
  refine reads_signed hrest hlimit hlow hhigh rfl (fun c hc => ?_) hrange
  split
  · contradiction
  · rename_i hminus
    cases hminus
    cases hc
  · rename_i d _ hd
    cases hd
    rw [if_pos hc]

/-- **A printed string is read back as a text.** -/
theorem reads_text {limit : Nat} {s expected : String} (h : (stringChars s).length ≤ limit)
    (rest : List Char) : Reads (text limit expected) (stringChars s ++ rest) s rest := by
  have hlength := length_le_stringChars s
  have htext : stringChars s ++ rest = '"' :: (s.toList.flatMap escaped ++ '"' :: rest) := by
    simp [stringChars]
  rw [htext]
  exact (reads_skipBlank rfl _).bind ((reads_skip '"' _).bind (reads_string (by omega) rest))

theorem reads_flag (limit : Nat) (b : Bool) (rest : List Char) :
    Reads (flag limit) ((Json.bool b).chars ++ rest) b rest := by
  cases b
  · exact (reads_skipBlank rfl _).bind ((reads_skip 'f' _).bind
      ((reads_expectWord ['a', 'l', 's', 'e'] rest).bind (.pure false rest)))
  · exact (reads_skipBlank rfl _).bind ((reads_skip 't' _).bind
      ((reads_expectWord ['r', 'u', 'e'] rest).bind (.pure true rest)))

theorem reads_optional_null (r : Reader α) (rest : List Char) :
    Reads (optional r) (Json.null.chars ++ rest) none rest :=
  (reads_skipBlank rfl _).bind ((reads_skip 'n' _).bind
    ((reads_expectWord ['u', 'l', 'l'] rest).bind (.pure none rest)))

theorem reads_optional {r : Reader α} {c : Char} {s rest : List Char} {x : α}
    (hc : isBlank c = false) (hn : c ≠ 'n') (h : Reads r (c :: s) x rest) :
    Reads (optional r) (c :: s) (some x) rest := by
  refine (reads_skipBlank hc s).bind ?_
  split
  · rename_i hd
    exact absurd (Option.some.inj hd) hn
  · exact h.bind (.pure (some x) rest)

/-- The name of a choice is read back. -/
theorem reads_oneOf {limit : Nat} {cs : List (String × α)} {name : String} {x : α}
    (h : Members.get? name cs = some x) (hlimit : (stringChars name).length ≤ limit)
    (rest : List Char) : Reads (oneOf limit cs) (stringChars name ++ rest) x rest := by
  refine (reads_skipBlank rfl _).bind ((reads_text hlimit rest).bind ?_)
  rw [h]
  exact .pure x rest

end Reader

/-- Texts with a comma before each. -/
def continued (ts : List (List Char)) : List Char := ts.flatMap (',' :: ·)

theorem joined_cons (t : List Char) (ts : List (List Char)) :
    joined (t :: ts) = t ++ continued ts := by
  induction ts generalizing t with
  | nil => simp [joined, continued]
  | cons u us ih => simp [joined, continued, ih u]

end ObjectFeed.Json
