import ObjectFeed.Template

/-!
# Matching a key

A key may be cut by a template in several ways, since the texts of the fields share characters with
each other and with the literals. The ways are ordered from left to right: a shorter topic comes
first, and a longer partition or offset. A key is read by the first of them, and by no other one: if
its partition is no 32-bit number, the key does not match.

* `Template.Spells`: the pieces that a text spells.
* `Template.Cuts`: the ways to cut a key; `Template.Precedes`: the order of them.
* `Template.mem_rests`, `Template.pairwise_preferredRests`: the search tries all texts of a field,
  the preferred ones first.
* `Template.cut_search`: the search finds the first way to cut a key, if there is one.
* `Template.matches_first_cut`: **a key is read by the first way to cut it.**
-/

namespace ObjectFeed

/-- One text of a field comes before another one: a shorter topic, or else a longer text. -/
def TemplateField.Prefers : TemplateField → (t t' : List Char) → Prop
  | .topic, t, t' => t.length < t'.length
  | .partition, t, t' => t'.length < t.length
  | .offset, t, t' => t'.length < t.length

theorem TemplateField.Prefers.asymm {f : TemplateField} {t t' : List Char} (h : f.Prefers t t') :
    ¬ f.Prefers t' t := by
  cases f <;> exact Nat.lt_asymm h

/-- The field of a placeholder. -/
def TemplatePiece.field? : TemplatePiece → Option TemplateField
  | .literal _ => none
  | .field f => some f

namespace Template

/-- The pieces that a text spells. A placeholder starts at the first `{{` and ends at the first `}}`
after it, with the name of a field and blanks around it in between. All else is literal. -/
inductive Spells : List Char → List TemplatePiece → Prop
  | last {literal : List Char} (hopen : ¬ ['{', '{'] <:+: literal) : Spells literal [.literal literal]
  | field {literal inner rest : List Char} {f : TemplateField} {ps : List TemplatePiece}
      (hopen : ¬ ['{', '{'] <:+: literal ++ ['{']) (hclose : ¬ ['}', '}'] <:+: inner ++ ['}'])
      (hname : String.ofList (Text.trim inner) = f.name) (hrest : Spells rest ps) :
      Spells (literal ++ '{' :: '{' :: (inner ++ '}' :: '}' :: rest)) (.literal literal :: .field f :: ps)

/-- A way to cut a key: the literals in their order, with a text for every field. -/
inductive Cuts : List TemplatePiece → List Char → List (TemplateField × List Char) → Prop
  | done : Cuts [] [] []
  | literal {ps : List TemplatePiece} {cs : List Char} {d : List (TemplateField × List Char)}
      (l : List Char) (hrest : Cuts ps cs d) : Cuts (.literal l :: ps) (l ++ cs) d
  | field {ps : List TemplatePiece} {cs : List Char} {d : List (TemplateField × List Char)}
      {f : TemplateField} {t : List Char} (hne : t ≠ []) (hadmits : ∀ c ∈ t, f.admits c = true)
      (hrest : Cuts ps cs d) : Cuts (.field f :: ps) (t ++ cs) ((f, t) :: d)

/-- One way to cut a key comes before another one: the first text in which they differ is preferred.
-/
inductive Precedes :
    List (TemplateField × List Char) → List (TemplateField × List Char) → Prop
  | here {f : TemplateField} {t t' : List Char} {d d' : List (TemplateField × List Char)}
      (h : f.Prefers t t') : Precedes ((f, t) :: d) ((f, t') :: d')
  | later {d d' : List (TemplateField × List Char)} (x : TemplateField × List Char)
      (h : Precedes d d') : Precedes (x :: d) (x :: d')

/-- The first of all ways to cut a key. -/
def First (ps : List TemplatePiece) (cs : List Char) (d : List (TemplateField × List Char)) : Prop :=
  Cuts ps cs d ∧ ∀ e, Cuts ps cs e → e ≠ d → Precedes d e

/-- A match takes its fields from a cut. -/
structure Reads (d : List (TemplateField × List Char)) (m : TemplateMatch) : Prop where
  topic : ∀ s, m.topic = some s ↔ (.topic, s.toList) ∈ d
  partition : ∀ n, m.partition = some n ↔
    ∃ cs, (.partition, cs) ∈ d ∧ n.toNat = Text.valueOfDigits cs
  offset : ∀ s, m.offset = some s ↔ (.offset, s.toList) ∈ d

/-- ASCII digits with a 32-bit value. -/
def IsPartition (cs : List Char) : Prop :=
  (∀ c ∈ cs, c.isDigit = true) ∧ Text.valueOfDigits cs < pow2 32

section Spelling

/-- A text is split at the first pair, if there is one. -/
theorem splitPair_eq_none_iff {a : Char} {cs : List Char} :
    splitPair a cs = none ↔ ¬ [a, a] <:+: cs := by
  fun_induction splitPair a cs with
  | case1 => simp
  | case2 x =>
    refine ⟨fun _ h => ?_, fun _ => rfl⟩
    have := h.length_le
    simp at this
  | case3 x y cs hpair =>
    obtain ⟨rfl, rfl⟩ := hpair
    refine ⟨fun h => ?_, fun h => absurd ⟨[], cs, rfl⟩ h⟩
    cases h
  | case4 x y cs hpair ih =>
    rw [Option.map_eq_none_iff, ih, List.infix_cons_iff (a := x), not_or]
    refine ⟨fun h => ⟨fun hstart => hpair ?_, h⟩, fun h => h.2⟩
    obtain ⟨rest, hrest⟩ := hstart
    simp only [List.cons_append, List.nil_append, List.cons.injEq] at hrest
    exact ⟨hrest.1.symm, hrest.2.1.symm⟩

theorem splitPair_eq_some {a : Char} {cs l r : List Char} (h : splitPair a cs = some (l, r)) :
    cs = l ++ a :: a :: r ∧ ¬ [a, a] <:+: l ++ [a] := by
  fun_induction splitPair a cs generalizing l with
  | case1 => cases h
  | case2 => cases h
  | case3 x y cs hpair =>
    obtain ⟨rfl, rfl⟩ := hpair
    obtain ⟨rfl, rfl⟩ := Prod.mk.inj (Option.some.inj h)
    refine ⟨rfl, fun hinfix => ?_⟩
    have := hinfix.length_le
    simp at this
  | case4 x y cs hpair ih =>
    obtain ⟨⟨l', r'⟩, hsplit, he⟩ := Option.map_eq_some_iff.1 h
    obtain ⟨rfl, rfl⟩ := Prod.mk.inj he
    obtain ⟨hcs, hnone⟩ := ih hsplit
    refine ⟨by rw [hcs, List.cons_append], ?_⟩
    rw [List.cons_append, List.infix_cons_iff, not_or]
    refine ⟨fun hstart => hpair ?_, hnone⟩
    -- the second character of the text is the first one after `x`
    obtain ⟨rest, hrest⟩ := hstart
    simp only [List.cons_append, List.nil_append, List.cons.injEq] at hrest
    obtain ⟨rfl, htail⟩ := hrest
    refine ⟨rfl, ?_⟩
    cases l' with
    | nil => exact (List.cons.inj hcs).1
    | cons z l' =>
      rw [(List.cons.inj hcs).1]
      exact (List.cons.inj htail).1.symm

theorem name_of_ofName? {s : String} {f : TemplateField} (h : TemplateField.ofName? s = some f) :
    f.name = s := by
  have hname := List.find?_some h
  simpa only [beq_iff_eq] using hname

/-- The pieces of a text are spelled by it, and no field has two placeholders. -/
theorem spells_scan {template : String} {seen : List TemplateField} {rest : List Char}
    {ps : List TemplatePiece} (h : scan template seen rest = .ok ps) :
    Spells rest ps ∧ (ps.filterMap TemplatePiece.field?).Nodup ∧
      ∀ f ∈ seen, f ∉ ps.filterMap TemplatePiece.field? := by
  fun_induction scan template seen rest generalizing ps with
  | case1 seen rest hsplit =>
    cases h
    exact ⟨.last (splitPair_eq_none_iff.1 hsplit), List.nodup_nil, fun f _ => List.not_mem_nil⟩
  | case2 => cases h
  | case3 => cases h
  | case4 => cases h
  | case5 seen rest literal after hopen inner rest' hclose name f hname hnew =>
    rename_i ih
    obtain ⟨ps', hscan, he⟩ : ∃ ps', scan template (f :: seen) rest' = .ok ps' ∧
        .literal literal :: .field f :: ps' = ps := by
      cases hscan : scan template (f :: seen) rest' with
      | error e =>
        rw [hscan] at h
        cases h
      | ok ps' =>
        rw [hscan] at h
        exact ⟨ps', rfl, Except.ok.inj h⟩
    obtain ⟨hspells, hnodup, hseen⟩ := ih hscan
    obtain ⟨rfl, hopen'⟩ := splitPair_eq_some hopen
    obtain ⟨rfl, hclose'⟩ := splitPair_eq_some hclose
    subst he
    refine ⟨.field hopen' hclose' (name_of_ofName? hname).symm hspells, ?_, ?_⟩
    · exact List.nodup_cons.2 ⟨hseen f List.mem_cons_self, hnodup⟩
    · intro g hg hmem
      rcases List.mem_cons.1 hmem with rfl | hlater
      · exact hnew hg
      · exact hseen g (List.mem_cons_of_mem f hg) hlater

theorem spells_compile {source : String} {t : Template} (h : compile source = .ok t) :
    Spells source.toList t.pieces ∧ (t.pieces.filterMap TemplatePiece.field?).Nodup := by
  cases hscan : scan source [] source.toList with
  | error e =>
    rw [compile, hscan] at h
    cases h
  | ok ps =>
    rw [compile, hscan] at h
    obtain ⟨hspells, hnodup, -⟩ := spells_scan hscan
    rw [← Except.ok.inj h]
    exact ⟨hspells, hnodup⟩

/-- A text without placeholders spells itself. -/
theorem Spells.eq_literal {source : List Char} {ps : List TemplatePiece} (h : Spells source ps)
    (hopen : ¬ ['{', '{'] <:+: source) : ps = [.literal source] := by
  cases h with
  | last => rfl
  | @field literal inner rest f ps =>
    refine absurd ⟨literal, inner ++ '}' :: '}' :: rest, ?_⟩ hopen
    rw [List.append_assoc]
    rfl

end Spelling

section Cutting

variable {f : TemplateField} {ps : List TemplatePiece} {cs l r t : List Char}
  {d e : List (TemplateField × List Char)}

theorem dropLiteral_eq_some_iff : dropLiteral l cs = some r ↔ cs = l ++ r := by
  fun_induction dropLiteral l cs with
  | case1 cs => simp
  | case2 => simp
  | case3 x l cs ih => rw [ih, List.cons_append, List.cons.injEq, and_iff_right rfl]
  | case4 x l c cs hne =>
    simp only [List.cons_append, List.cons.injEq, reduceCtorEq, false_iff, not_and]
    exact fun he => absurd he.symm hne

/-- What may be left after a text of a field is what is left after all of its texts. -/
theorem mem_rests : r ∈ rests f cs ↔
    ∃ t, t ≠ [] ∧ (∀ c ∈ t, f.admits c = true) ∧ cs = t ++ r := by
  induction cs with
  | nil =>
    refine ⟨nofun, ?_⟩
    rintro ⟨t, hne, -, he⟩
    exact absurd (List.append_eq_nil_iff.1 he.symm).1 hne
  | cons c cs ih =>
    by_cases hc : f.admits c = true
    · rw [rests, if_pos hc, List.mem_cons, ih]
      constructor
      · rintro (rfl | ⟨t, -, hadmits, rfl⟩)
        · exact ⟨[c], by simp, by simpa using hc, rfl⟩
        · exact ⟨c :: t, by simp, by simpa [hc] using hadmits, rfl⟩
      · rintro ⟨t, hne, hadmits, he⟩
        obtain ⟨x, t, rfl⟩ := List.exists_cons_of_ne_nil hne
        obtain ⟨rfl, rfl⟩ := List.cons.inj he
        by_cases ht : t = []
        · exact .inl (by rw [ht]; rfl)
        · exact .inr ⟨t, ht, fun y hy => hadmits y (List.mem_cons_of_mem c hy), rfl⟩
    · rw [rests, if_neg hc]
      refine ⟨nofun, ?_⟩
      rintro ⟨t, hne, hadmits, he⟩
      obtain ⟨x, t, rfl⟩ := List.exists_cons_of_ne_nil hne
      obtain ⟨rfl, -⟩ := List.cons.inj he
      exact absurd (hadmits c List.mem_cons_self) hc

theorem mem_preferredRests : r ∈ preferredRests f cs ↔ r ∈ rests f cs := by
  unfold preferredRests
  by_cases hshort : f.isShort = true
  · rw [if_pos hshort]
  · rw [if_neg hshort, List.mem_reverse]

theorem pairwise_rests (f : TemplateField) (cs : List Char) :
    (rests f cs).Pairwise fun r r' => r'.length < r.length := by
  induction cs with
  | nil => exact List.Pairwise.nil
  | cons c cs ih =>
    by_cases hc : f.admits c = true
    · rw [rests, if_pos hc, List.pairwise_cons]
      refine ⟨fun r hr => ?_, ih⟩
      obtain ⟨t, hne, -, rfl⟩ := mem_rests.1 hr
      have := List.length_pos_iff.2 hne
      rw [List.length_append]
      omega
    · rw [rests, if_neg hc]
      exact List.Pairwise.nil

/-- Preferred texts are tried first. -/
theorem pairwise_preferredRests (f : TemplateField) (cs : List Char) :
    (preferredRests f cs).Pairwise fun r r' =>
      ∀ t t', cs = t ++ r → cs = t' ++ r' → f.Prefers t t' := by
  have hlength : ∀ {r r' t t' : List Char}, cs = t ++ r → cs = t' ++ r' →
      t.length + r.length = t'.length + r'.length := by
    intro r r' t t' h h'
    rw [← List.length_append, ← List.length_append, ← h, ← h']
  have hlong := pairwise_rests f cs
  unfold preferredRests
  cases f with
  | topic =>
    refine hlong.imp fun {r r'} hr t t' h h' => ?_
    have := hlength h h'
    show t.length < t'.length
    omega
  | partition | offset =>
    refine List.pairwise_reverse.2 (hlong.imp fun {r r'} hr t t' h h' => ?_)
    have := hlength h h'
    show t'.length < t.length
    omega

theorem before_append (t r : List Char) : before (t ++ r) r = t := by
  rw [before, List.length_append, Nat.add_sub_cancel, List.take_left]

/-- The search finds no way to cut a key only if there is none, and else the first one. By induction
on the pieces: a rest is passed over only if there is no way to cut it. -/
theorem cut_search (ps : List TemplatePiece) (cs : List Char) :
    (cut? ps cs = none → ∀ d, ¬ Cuts ps cs d) ∧ ∀ d, cut? ps cs = some d → First ps cs d := by
  induction ps generalizing cs with
  | nil =>
    cases cs with
    | nil =>
      refine ⟨nofun, ?_⟩
      rintro d ⟨⟩
      refine ⟨.done, fun e he hne => ?_⟩
      cases he
      exact absurd rfl hne
    | cons c cs =>
      exact ⟨fun _ d => nofun, fun d => nofun⟩
  | cons p ps ih =>
    cases p with
    | literal l =>
      rw [cut?]
      cases hdrop : dropLiteral l cs with
      | none =>
        refine ⟨fun _ d hd => ?_, fun d => nofun⟩
        cases hd with
        | @literal _ cs' _ _ hrest =>
          rw [dropLiteral_eq_some_iff.2 rfl] at hdrop
          cases hdrop
      | some r =>
        obtain rfl := dropLiteral_eq_some_iff.1 hdrop
        rw [Option.bind_some]
        refine ⟨fun h d hd => ?_, fun d h => ?_⟩
        · generalize hcs : l ++ r = cs at hd
          cases hd with
          | literal _ hrest =>
            rw [List.append_cancel_left hcs] at h
            exact (ih _).1 h d hrest
        · obtain ⟨hcuts, hfirst⟩ := (ih r).2 d h
          refine ⟨.literal l hcuts, fun e he hne => ?_⟩
          generalize hcs : l ++ r = cs at he
          cases he with
          | literal _ hrest =>
            rw [List.append_cancel_left hcs] at hfirst
            exact hfirst e hrest hne
    | field f =>
      rw [cut?]
      refine ⟨fun h d hd => ?_, fun d h => ?_⟩
      · cases hd with
        | @field _ r d _ t hne hadmits hrest =>
          have hmem : r ∈ preferredRests f (t ++ r) :=
            mem_preferredRests.2 (mem_rests.2 ⟨t, hne, hadmits, rfl⟩)
          have hnone := List.findSome?_eq_none_iff.1 h r hmem
          exact (ih r).1 (Option.map_eq_none_iff.1 hnone) d hrest
      · obtain ⟨earlier, r, later, hsplit, hcut, hpassed⟩ := List.findSome?_eq_some_iff.1 h
        obtain ⟨d', hd', rfl⟩ := Option.map_eq_some_iff.1 hcut
        have hmem : r ∈ preferredRests f cs := by rw [hsplit]; simp
        obtain ⟨t, hne, hadmits, rfl⟩ := mem_rests.1 (mem_preferredRests.1 hmem)
        obtain ⟨hcuts, hfirst⟩ := (ih r).2 d' hd'
        rw [before_append]
        refine ⟨.field hne hadmits hcuts, fun e he hother => ?_⟩
        have horder := pairwise_preferredRests f (t ++ r)
        generalize hcs : t ++ r = cs at he hsplit horder
        cases he with
        | @field _ r' e' _ t' hne' hadmits' hrest' =>
          have hmem' : r' ∈ preferredRests f (t' ++ r') :=
            mem_preferredRests.2 (mem_rests.2 ⟨t', hne', hadmits', rfl⟩)
          rw [hsplit, List.mem_append, List.mem_cons] at hmem'
          rcases hmem' with hearlier | rfl | hlater
          · have hnone := Option.map_eq_none_iff.1 (hpassed r' hearlier)
            exact absurd hrest' ((ih r').1 hnone e')
          · obtain rfl : t = t' := List.append_cancel_right hcs
            exact .later _ (hfirst e' hrest' fun he => hother (he ▸ rfl))
          · rw [hsplit, List.pairwise_append] at horder
            exact .here ((List.pairwise_cons.1 horder.2.1).1 r' hlater t t' hcs.symm rfl)

theorem Precedes.asymm (h : Precedes d e) : ¬ Precedes e d := by
  induction h with
  | here h =>
    rintro (⟨h'⟩ | ⟨-, h'⟩)
    · exact h.asymm h'
    · exact h.asymm h
  | later x h ih =>
    rintro (⟨h'⟩ | ⟨-, h'⟩)
    · exact h'.asymm h'
    · exact ih h'

theorem First.unique (h : First ps cs d) (h' : First ps cs e) : d = e := by
  by_cases hne : d = e
  · exact hne
  · exact absurd (h'.2 d h.1 hne) (h.2 e h'.1 fun he => hne he.symm).asymm

/-- The texts of a cut are those of the placeholders. -/
theorem Cuts.fields (h : Cuts ps cs d) : d.map (·.1) = ps.filterMap TemplatePiece.field? := by
  induction h with
  | done => rfl
  | literal l hrest ih => exact ih
  | field hne hadmits hrest ih => exact congrArg (_ :: ·) ih

theorem cuts_literal_iff : Cuts [.literal l] cs d ↔ cs = l ∧ d = [] := by
  constructor
  · intro h
    cases h with
    | literal _ hrest =>
      cases hrest
      exact ⟨List.append_nil l, rfl⟩
  · rintro ⟨rfl, rfl⟩
    have hcuts := Cuts.literal cs .done
    rwa [List.append_nil] at hcuts

theorem Cuts.ne_nil (h : Cuts ps cs d) (hmem : (f, t) ∈ d) : t ≠ [] := by
  induction h with
  | done => cases hmem
  | literal l hrest ih => exact ih hmem
  | field hne hadmits hrest ih =>
    rcases List.mem_cons.1 hmem with he | hlater
    · obtain ⟨rfl, rfl⟩ := Prod.mk.inj he
      exact hne
    · exact ih hlater

/-- A cut has no text for a field without a placeholder. -/
theorem Cuts.notMem (h : Cuts ps cs d) (hf : .field f ∉ ps) (t : List Char) : (f, t) ∉ d := by
  intro hmem
  have hplace : f ∈ ps.filterMap TemplatePiece.field? :=
    h.fields ▸ List.mem_map.2 ⟨(f, t), hmem, rfl⟩
  obtain ⟨p, hp, hpf⟩ := List.mem_filterMap.1 hplace
  cases p with
  | literal l => cases hpf
  | field g => exact hf (Option.some.inj hpf ▸ hp)

/-- With one placeholder for each field, the text of a field is any text that a cut has for it. -/
theorem fieldText_eq_some_iff (h : (d.map (·.1)).Nodup) : fieldText f d = some t ↔ (f, t) ∈ d := by
  induction d with
  | nil => simp [fieldText]
  | cons x d ih =>
    obtain ⟨hnew, hnodup⟩ := List.nodup_cons.1 h
    by_cases hx : x.1 = f
    · have hfound : fieldText f (x :: d) = some x.2 := by simp [fieldText, hx]
      rw [hfound, Option.some.injEq, List.mem_cons]
      constructor
      · rintro rfl
        exact .inl (by rw [← hx])
      · rintro (rfl | hlater)
        · rfl
        · exact absurd (List.mem_map.2 ⟨(f, t), hlater, hx.symm⟩) hnew
    · have hskip : fieldText f (x :: d) = fieldText f d := by simp [fieldText, hx]
      rw [hskip, ih hnodup, List.mem_cons]
      refine ⟨.inr, ?_⟩
      rintro (rfl | hlater)
      · exact absurd rfl hx
      · exact hlater

end Cutting

section Reading

variable {t : Template} {key : String} {d : List (TemplateField × List Char)}

/-- The partition of a text is its value, if that has 32 bits. -/
theorem digits?_filter {cs : List Char} (hne : cs ≠ []) :
    (Text.digits? cs).filter (· < pow2 32) =
      if cs.all Char.isDigit ∧ Text.valueOfDigits cs < pow2 32 then some (Text.valueOfDigits cs)
      else none := by
  have hempty : cs.isEmpty = false := by
    rw [← Bool.not_eq_true, List.isEmpty_iff]
    exact hne
  rw [Text.digits?, hempty, Bool.not_false, Bool.true_and]
  by_cases hdigits : cs.all Char.isDigit = true
  · rw [if_pos hdigits]
    by_cases hvalue : Text.valueOfDigits cs < pow2 32
    · rw [if_pos ⟨hdigits, hvalue⟩]
      exact Option.filter_some_pos (decide_eq_true hvalue)
    · rw [if_neg fun h => hvalue h.2]
      exact Option.filter_some_neg (decide_eq_false hvalue)
  · rw [if_neg hdigits, if_neg fun h => hdigits h.1, Option.filter_none]

theorem match?_of_no_cut (h : cut? t.pieces key.toList = none) : t.match? key = none := by
  rw [match?, h]
  rfl

/-- Without a partition a cut is read as it is. -/
theorem match?_of_no_partition (h : cut? t.pieces key.toList = some d)
    (hnone : fieldText .partition d = none) :
    t.match? key = some {
      topic := (fieldText .topic d).map String.ofList
      partition := none
      offset := (fieldText .offset d).map String.ofList } := by
  rw [match?, h]
  simp only [Option.bind_eq_bind, Option.bind_some, hnone]
  rfl

theorem match?_of_partition {cs : List Char} (h : cut? t.pieces key.toList = some d)
    (hsome : fieldText .partition d = some cs) (hpartition : IsPartition cs) (hne : cs ≠ []) :
    t.match? key = some {
      topic := (fieldText .topic d).map String.ofList
      partition := some (Text.valueOfDigits cs).toUInt32
      offset := (fieldText .offset d).map String.ofList } := by
  have hall : cs.all Char.isDigit = true := List.all_eq_true.2 hpartition.1
  rw [match?, h]
  simp only [Option.bind_eq_bind, Option.bind_some, hsome, digits?_filter hne,
    if_pos (And.intro hall hpartition.2)]
  rfl

theorem match?_of_other {cs : List Char} (h : cut? t.pieces key.toList = some d)
    (hsome : fieldText .partition d = some cs) (hpartition : ¬ IsPartition cs) (hne : cs ≠ []) :
    t.match? key = none := by
  have hother : ¬ (cs.all Char.isDigit = true ∧ Text.valueOfDigits cs < pow2 32) :=
    fun h => hpartition ⟨List.all_eq_true.1 h.1, h.2⟩
  rw [match?, h]
  simp only [Option.bind_eq_bind, Option.bind_some, hsome, digits?_filter hne, if_neg hother]
  rfl

theorem map_fieldText_eq_some_iff {f : TemplateField} (h : (d.map (·.1)).Nodup) (s : String) :
    (fieldText f d).map String.ofList = some s ↔ (f, s.toList) ∈ d := by
  rw [← fieldText_eq_some_iff h]
  constructor
  · intro hs
    obtain ⟨cs, hcs, rfl⟩ := Option.map_eq_some_iff.1 hs
    rw [hcs, String.toList_ofList]
  · intro hs
    rw [hs, Option.map_some, String.ofList_toList]

/-- A cut is read unless its partition is no 32-bit number. -/
theorem match?_of_cut (h : cut? t.pieces key.toList = some d) (hcuts : Cuts t.pieces key.toList d)
    (hnodup : (d.map (·.1)).Nodup) :
    (t.match? key = none ↔ ∃ cs, (.partition, cs) ∈ d ∧ ¬ IsPartition cs) ∧
      ∀ m, t.match? key = some m → Reads d m := by
  have htext : ∀ {cs}, (.partition, cs) ∈ d ↔ fieldText .partition d = some cs :=
    (fieldText_eq_some_iff hnodup).symm
  cases hpartition : fieldText .partition d with
  | none =>
    have hno : ∀ cs, (.partition, cs) ∉ d := by
      intro cs hmem
      rw [htext, hpartition] at hmem
      cases hmem
    rw [match?_of_no_partition h hpartition]
    refine ⟨⟨nofun, fun ⟨cs, hmem, _⟩ => absurd hmem (hno cs)⟩, ?_⟩
    rintro m ⟨⟩
    refine ⟨map_fieldText_eq_some_iff hnodup, fun n => ⟨nofun, ?_⟩,
      map_fieldText_eq_some_iff hnodup⟩
    rintro ⟨cs, hmem, -⟩
    exact absurd hmem (hno cs)
  | some cs =>
    have hmem : (.partition, cs) ∈ d := htext.2 hpartition
    have honly : ∀ {cs'}, (.partition, cs') ∈ d → cs' = cs := by
      intro cs' hmem'
      rw [htext, hpartition] at hmem'
      exact (Option.some.inj hmem').symm
    have hne := hcuts.ne_nil hmem
    by_cases hvalid : IsPartition cs
    · rw [match?_of_partition h hpartition hvalid hne]
      refine ⟨⟨nofun, ?_⟩, ?_⟩
      · rintro ⟨cs', hmem', hinvalid⟩
        exact absurd (honly hmem' ▸ hvalid) hinvalid
      · rintro m ⟨⟩
        have hvalue : (Text.valueOfDigits cs).toUInt32.toNat = Text.valueOfDigits cs :=
          Nat.mod_eq_of_lt hvalid.2
        refine ⟨map_fieldText_eq_some_iff hnodup, fun n => ⟨?_, ?_⟩,
          map_fieldText_eq_some_iff hnodup⟩
        · rintro ⟨⟩
          exact ⟨cs, hmem, hvalue⟩
        · rintro ⟨cs', hmem', hn⟩
          rw [honly hmem', ← hvalue] at hn
          rw [UInt32.toNat_inj.1 hn]
    · rw [match?_of_other h hpartition hvalid hne]
      exact ⟨⟨fun _ => ⟨cs, hmem, hvalid⟩, fun _ => rfl⟩, nofun⟩

/-- What a match has no placeholder for is absent. -/
theorem Reads.absent {m : TemplateMatch} (h : Reads d m) {f : TemplateField}
    (hf : ∀ cs, (f, cs) ∉ d) :
    match f with
    | .topic => m.topic = none
    | .partition => m.partition = none
    | .offset => m.offset = none := by
  cases f with
  | topic => exact Option.eq_none_iff_forall_ne_some.2 fun s hs => hf _ ((h.topic s).1 hs)
  | partition =>
    refine Option.eq_none_iff_forall_ne_some.2 fun n hn => ?_
    obtain ⟨cs, hmem, -⟩ := (h.partition n).1 hn
    exact hf cs hmem
  | offset => exact Option.eq_none_iff_forall_ne_some.2 fun s hs => hf _ ((h.offset s).1 hs)

/-- A literal matches itself alone. -/
theorem match?_literal {l : List Char} (hl : t.pieces = [.literal l]) :
    t.match? key ≠ none ↔ key.toList = l := by
  obtain ⟨hnone, hsome⟩ := cut_search t.pieces key.toList
  cases hcut : cut? t.pieces key.toList with
  | none =>
    rw [match?_of_no_cut hcut]
    refine ⟨fun h => absurd rfl h, fun h => ?_⟩
    rw [hl] at hcut hnone
    exact absurd (cuts_literal_iff.2 ⟨h, rfl⟩) (hnone hcut [])
  | some d =>
    have hcuts := (hsome d hcut).1
    rw [hl, cuts_literal_iff] at hcuts
    obtain ⟨hkey, rfl⟩ := hcuts
    rw [match?_of_no_partition hcut rfl]
    exact ⟨fun _ => hkey, fun _ => nofun⟩

/-- **A key is read by the first way to cut it.** A template is compiled into the pieces that it
spells, and one without placeholders matches itself alone. A key that can be cut in no way does not
match. Among the ways to cut another key there is one that comes before all others: the key does not
match just if the partition there is no 32-bit number in ASCII digits, and no other way is tried;
else the fields are those of that way, and the fields that the template lacks are absent. -/
theorem matches_first_cut {source : String} (h : compile source = .ok t) (key : String) :
    Spells source.toList t.pieces ∧
      (¬ ['{', '{'] <:+: source.toList → (t.match? key ≠ none ↔ key = source)) ∧
      ((∀ d, ¬ Cuts t.pieces key.toList d) → t.match? key = none) ∧
      ((∃ e, Cuts t.pieces key.toList e) →
        ∃ d, First t.pieces key.toList d ∧ (∀ e, First t.pieces key.toList e → e = d) ∧
          (t.match? key = none ↔ ∃ cs, (.partition, cs) ∈ d ∧ ¬ IsPartition cs) ∧
          ∀ m, t.match? key = some m → Reads d m ∧
            (.field .topic ∉ t.pieces → m.topic = none) ∧
            (.field .partition ∉ t.pieces → m.partition = none) ∧
            (.field .offset ∉ t.pieces → m.offset = none)) := by
  obtain ⟨hspells, hnodup⟩ := spells_compile h
  obtain ⟨hnone, hsome⟩ := cut_search t.pieces key.toList
  refine ⟨hspells, fun hopen => ?_, fun hno => ?_, fun ⟨e, he⟩ => ?_⟩
  · exact (match?_literal (hspells.eq_literal hopen)).trans String.toList_inj
  · cases hcut : cut? t.pieces key.toList with
    | none => exact match?_of_no_cut hcut
    | some d => exact absurd (hsome d hcut).1 (hno d)
  · cases hcut : cut? t.pieces key.toList with
    | none => exact absurd he (hnone hcut e)
    | some d =>
      have hfirst := hsome d hcut
      obtain ⟨hmatch, hreads⟩ := match?_of_cut hcut hfirst.1 (hfirst.1.fields ▸ hnodup)
      refine ⟨d, hfirst, fun e he => he.unique hfirst, hmatch, fun m hm => ?_⟩
      have hm := hreads m hm
      exact ⟨hm, fun hf => hm.absent (hfirst.1.notMem hf), fun hf => hm.absent (hfirst.1.notMem hf),
        fun hf => hm.absent (hfirst.1.notMem hf)⟩

/-- A template whose fields share their characters. -/
def sampleTemplate : Template :=
  ⟨"\x7b\x7bpartition\x7d\x7d\x7b\x7bstart_offset\x7d\x7d",
    [.literal [], .field .partition, .literal [], .field .offset, .literal []]⟩

/-- The second key could be cut with a shorter partition, but that is not tried. -/
theorem matches_first_cut_sample :
    compile sampleTemplate.source = .ok sampleTemplate ∧
      (∃ d, First sampleTemplate.pieces "12a3".toList d ∧
        Reads d { partition := some 12, offset := some "a3" }) ∧
      ∃ d, First sampleTemplate.pieces "5000000000a".toList d ∧
        ∃ cs, (.partition, cs) ∈ d ∧ ¬ IsPartition cs := by
  have hcompile : compile sampleTemplate.source = .ok sampleTemplate := by cbv
  refine ⟨hcompile, ?_, ?_⟩
  · obtain ⟨-, -, -, hcut⟩ := matches_first_cut hcompile "12a3"
    obtain ⟨hcuts, -⟩ := (cut_search sampleTemplate.pieces "12a3".toList).2
      [(.partition, ['1', '2']), (.offset, ['a', '3'])] (by decide +kernel)
    obtain ⟨d, hfirst, -, -, hreads⟩ := hcut ⟨_, hcuts⟩
    exact ⟨d, hfirst, (hreads _ (by decide +kernel)).1⟩
  · obtain ⟨-, -, -, hcut⟩ := matches_first_cut hcompile "5000000000a"
    obtain ⟨hcuts, -⟩ := (cut_search sampleTemplate.pieces "5000000000a".toList).2
      [(.partition, "5000000000".toList), (.offset, ['a'])] (by decide +kernel)
    obtain ⟨d, hfirst, -, hnone, -⟩ := hcut ⟨_, hcuts⟩
    exact ⟨d, hfirst, hnone.1 (by decide +kernel)⟩

end Reading

end Template

end ObjectFeed
