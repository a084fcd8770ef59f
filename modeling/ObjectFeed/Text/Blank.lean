/-!
# Blank characters

The characters of Unicode's White_Space property, and trimming by them.

* `isBlank`: the property.
* `trim`, `trimmed`: a text without the blank characters at its two ends.
* `trim_padded`, `mem_trim_or_blank`: what is trimmed away, and what is not.
-/

namespace ObjectFeed.Text

/-- Unicode's White_Space property. -/
def isBlank (c : Char) : Bool :=
  let n := c.toNat
  (9 ≤ n && n ≤ 13) || n == 0x20 || n == 0x85 || n == 0xA0 || n == 0x1680 ||
    (0x2000 ≤ n && n ≤ 0x200A) || n == 0x2028 || n == 0x2029 || n == 0x202F ||
    n == 0x205F || n == 0x3000

/-- A text without the blank characters at its start. -/
def trimStart (s : List Char) : List Char := s.dropWhile isBlank

/-- A text without the blank characters at its two ends. -/
def trim (s : List Char) : List Char := (trimStart (trimStart s).reverse).reverse

/-- `trim` on strings. -/
def trimmed (s : String) : String := String.ofList (trim s.toList)

/-- A string of blank characters only. -/
def isBlankText (s : String) : Bool := s.toList.all isBlank

theorem trimStart_append_of_blank {pad : List Char} (h : ∀ c ∈ pad, isBlank c = true)
    (s : List Char) : trimStart (pad ++ s) = trimStart s :=
  List.dropWhile_append_of_pos h

/-- Blank characters at the end of a text are trimmed away. -/
theorem trim_append_of_blank {pad : List Char} (h : ∀ c ∈ pad, isBlank c = true) (s : List Char) :
    trim (s ++ pad) = trim s := by
  have hpad : trimStart pad = [] := by
    simpa [trimStart] using trimStart_append_of_blank h []
  unfold trim
  by_cases hs : trimStart s = []
  · -- nothing but blank characters
    have hall : trimStart (s ++ pad) = [] := by
      rw [trimStart, List.dropWhile_append, ← trimStart, ← trimStart, hs, hpad]
      rfl
    rw [hall, hs]
  · have hstart : trimStart (s ++ pad) = trimStart s ++ pad := by
      have hne : (trimStart s).isEmpty = false := by
        rw [← Bool.not_eq_true, List.isEmpty_iff]
        exact hs
      rw [trimStart, List.dropWhile_append, ← trimStart, hne]
      rfl
    rw [hstart, List.reverse_append,
      trimStart_append_of_blank fun c hc => h c (List.mem_reverse.1 hc)]

/-- **Blank characters around a text are trimmed away.** -/
theorem trim_padded {pad pad' : List Char} (h : ∀ c ∈ pad, isBlank c = true)
    (h' : ∀ c ∈ pad', isBlank c = true) (s : List Char) : trim (pad ++ s ++ pad') = trim s := by
  rw [trim_append_of_blank h', trim, trimStart_append_of_blank h, ← trim]

theorem mem_trimStart_or_blank {s : List Char} {c : Char} (h : c ∈ s) :
    c ∈ trimStart s ∨ isBlank c = true := by
  rw [← List.takeWhile_append_dropWhile (p := isBlank) (l := s), List.mem_append] at h
  rcases h with hblank | hrest
  · exact .inr (List.all_eq_true.1 List.all_takeWhile c hblank)
  · exact .inl hrest

/-- What is trimmed away is blank. -/
theorem mem_trim_or_blank {s : List Char} {c : Char} (h : c ∈ s) :
    c ∈ trim s ∨ isBlank c = true := by
  rcases mem_trimStart_or_blank h with hstart | hblank
  · have hend := mem_trimStart_or_blank (List.mem_reverse.2 hstart)
    exact hend.imp_left List.mem_reverse.2
  · exact .inr hblank

end ObjectFeed.Text
