import ObjectFeed.Proofs.Matching

/-!
# The grammar of templates

A text is a template if its placeholders are ended and have different names of fields. The text is
scanned from the left, so which braces make a placeholder does not depend on the names, and of
several faults the first one is reported. Blank characters around a name count for nothing.

* `Template.Scans`: the placeholders of a text; `Template.exists_scans`, `Template.Scans.unique`:
  every text has them, and no others.
* `Template.Flawless`, `Template.FirstFault`: names without a fault, and the first fault.
* `Template.scan_outcome`: what the scan of a text comes to, by induction on its placeholders.
* `Template.FirstFault.unique`: there is one first fault.
* `Template.Respaced`, `Template.scan_respaced`: other blank characters around the names.
* `Template.compiles_grammar`: **a text is compiled if and only if it has no fault.**
-/

namespace ObjectFeed

namespace Template

/-- The texts between the braces of the placeholders of a text, from left to right, and whether one
more is left open at its end. A placeholder starts at the first `{{` and ends at the first `}}`
after it. -/
inductive Scans : List Char → List (List Char) → (isOpen : Bool) → Prop
  | last {literal : List Char} (hopen : ¬ ['{', '{'] <:+: literal) : Scans literal [] false
  | unclosed {literal rest : List Char} (hopen : ¬ ['{', '{'] <:+: literal ++ ['{'])
      (hclose : ¬ ['}', '}'] <:+: rest) : Scans (literal ++ '{' :: '{' :: rest) [] true
  | field {literal inner rest : List Char} {inners : List (List Char)} {isOpen : Bool}
      (hopen : ¬ ['{', '{'] <:+: literal ++ ['{']) (hclose : ¬ ['}', '}'] <:+: inner ++ ['}'])
      (hrest : Scans rest inners isOpen) :
      Scans (literal ++ '{' :: '{' :: (inner ++ '}' :: '}' :: rest)) (inner :: inners) isOpen

/-- The name of a placeholder. -/
def placeholderName (inner : List Char) : String := String.ofList (Text.trim inner)

/-- The names that a placeholder may have. -/
def fieldNames : List String := ["topic", "partition", "start_offset"]

/-- Names of fields, and no name twice. -/
def Flawless (names : List String) : Prop := (∀ name ∈ names, name ∈ fieldNames) ∧ names.Nodup

instance (names : List String) : Decidable (Flawless names) := by unfold Flawless; infer_instance

/-- The error for the first fault of a text, of which the placeholders have the names. One that is
left open is the last one. -/
inductive FirstFault (template : String) (names : List String) (isOpen : Bool) : ConfigError → Prop
  | unclosed (hnames : Flawless names) (hopen : isOpen = true) :
      FirstFault template names isOpen (.openPlaceholder template)
  | unknown {earlier later : List String} {name : String} (hnames : names = earlier ++ name :: later)
      (hearlier : Flawless earlier) (hname : name ∉ fieldNames) :
      FirstFault template names isOpen (.unknownPlaceholder name template)
  | repeated {earlier later : List String} {name : String} (hnames : names = earlier ++ name :: later)
      (hearlier : Flawless earlier) (hname : name ∈ earlier) :
      FirstFault template names isOpen (.repeatedPlaceholder name template)

/-- The same text but for blank characters around the names of the placeholders. -/
inductive Respaced : List Char → List Char → Prop
  | last {literal : List Char} (hopen : ¬ ['{', '{'] <:+: literal) : Respaced literal literal
  | field {literal name pad₁ pad₂ pad₃ pad₄ rest rest' : List Char}
      (hopen : ¬ ['{', '{'] <:+: literal ++ ['{'])
      (hclose : ¬ ['}', '}'] <:+: pad₁ ++ name ++ pad₂ ++ ['}'])
      (hpad : ∀ pad ∈ [pad₁, pad₂, pad₃, pad₄], ∀ c ∈ pad, Text.isBlank c = true)
      (hrest : Respaced rest rest') :
      Respaced (literal ++ '{' :: '{' :: (pad₁ ++ name ++ pad₂ ++ '}' :: '}' :: rest))
        (literal ++ '{' :: '{' :: (pad₃ ++ name ++ pad₄ ++ '}' :: '}' :: rest'))

section Scanning

variable {a : Char} {cs literal inner rest : List Char} {inners : List (List Char)} {isOpen : Bool}

/-- A text is split at its first pair. -/
theorem splitPair_append {l r : List Char} (h : ¬ [a, a] <:+: l ++ [a]) :
    splitPair a (l ++ a :: a :: r) = some (l, r) := by
  induction l with
  | nil => simp [splitPair]
  | cons x l ih =>
    rw [List.cons_append, List.infix_cons_iff, not_or] at h
    obtain ⟨hstart, hlater⟩ := h
    -- two characters are looked at, and the second one may be the first one of the pair
    cases l with
    | nil =>
      have hx : x ≠ a := by
        rintro rfl
        exact hstart (List.prefix_refl _)
      simp [splitPair, hx]
    | cons y l =>
      have hxy : ¬ (x = a ∧ y = a) := by
        rintro ⟨rfl, rfl⟩
        exact hstart ⟨l ++ [y], rfl⟩
      simp only [List.cons_append, splitPair, if_neg hxy]
      rw [← List.cons_append, ih hlater]
      rfl

/-- **What the first placeholder is, and the placeholders of the rest**, read off a text. -/
theorem Scans.head (h : Scans cs inners isOpen) :
    (splitPair '{' cs = none ∧ inners = [] ∧ isOpen = false) ∨
    (∃ literal rest, splitPair '{' cs = some (literal, rest) ∧ splitPair '}' rest = none ∧
      inners = [] ∧ isOpen = true) ∨
    ∃ literal rest inner rest' inners', splitPair '{' cs = some (literal, rest) ∧
      splitPair '}' rest = some (inner, rest') ∧ inners = inner :: inners' ∧
      Scans rest' inners' isOpen := by
  cases h with
  | last hopen => exact .inl ⟨splitPair_eq_none_iff.2 hopen, rfl, rfl⟩
  | unclosed hopen hclose =>
    exact .inr (.inl ⟨_, _, splitPair_append hopen, splitPair_eq_none_iff.2 hclose, rfl, rfl⟩)
  | field hopen hclose hrest =>
    exact .inr (.inr ⟨_, _, _, _, _, splitPair_append hopen, splitPair_append hclose, rfl, hrest⟩)

/-- **Every text has placeholders**, maybe none. By induction on its length. -/
theorem exists_scans (cs : List Char) : ∃ inners isOpen, Scans cs inners isOpen := by
  obtain ⟨n, hn⟩ : ∃ n, n = cs.length := ⟨_, rfl⟩
  induction n using Nat.strongRecOn generalizing cs with
  | ind n ih =>
    subst hn
    cases hopen : splitPair '{' cs with
    | none => exact ⟨[], false, .last (splitPair_eq_none_iff.1 hopen)⟩
    | some split =>
      obtain ⟨literal, after⟩ := split
      have hshort := length_of_splitPair hopen
      obtain ⟨rfl, hfirst⟩ := splitPair_eq_some hopen
      cases hclose : splitPair '}' after with
      | none => exact ⟨[], true, .unclosed hfirst (splitPair_eq_none_iff.1 hclose)⟩
      | some split =>
        obtain ⟨inner, rest⟩ := split
        have hshorter := length_of_splitPair hclose
        obtain ⟨rfl, hend⟩ := splitPair_eq_some hclose
        obtain ⟨inners, isOpen, hrest⟩ := ih rest.length (by omega) rest rfl
        exact ⟨inner :: inners, isOpen, .field hfirst hend hrest⟩

/-- **No text has other placeholders.** -/
theorem Scans.unique (h : Scans cs inners isOpen) {inners' : List (List Char)} {isOpen' : Bool}
    (h' : Scans cs inners' isOpen') : inners' = inners ∧ isOpen' = isOpen := by
  induction h generalizing inners' with
  | last hopen =>
    have hsplit := splitPair_eq_none_iff.2 hopen
    rcases h'.head with ⟨-, hi, ho⟩ | ⟨_, _, hs, -⟩ | ⟨_, _, _, _, _, hs, -⟩
    · exact ⟨hi, ho⟩
    · cases hsplit.symm.trans hs
    · cases hsplit.symm.trans hs
  | @unclosed literal rest hopen hclose =>
    have hsplit := splitPair_append (r := rest) hopen
    have hnone := splitPair_eq_none_iff.2 hclose
    rcases h'.head with ⟨hs, -⟩ | ⟨_, _, hs, -, hi, ho⟩ | ⟨_, _, _, _, _, hs, hs', -⟩
    · cases hsplit.symm.trans hs
    · exact ⟨hi, ho⟩
    · cases hsplit.symm.trans hs
      cases hnone.symm.trans hs'
  | @field literal inner rest _ _ hopen hclose _ ih =>
    have hsplit := splitPair_append (r := inner ++ '}' :: '}' :: rest) hopen
    have hinner := splitPair_append (r := rest) hclose
    rcases h'.head with ⟨hs, -⟩ | ⟨_, _, hs, hs', -⟩ | ⟨_, _, _, _, _, hs, hs', rfl, hrest⟩
    · cases hsplit.symm.trans hs
    · cases hsplit.symm.trans hs
      cases hinner.symm.trans hs'
    · cases hsplit.symm.trans hs
      cases hinner.symm.trans hs'
      obtain ⟨rfl, rfl⟩ := ih hrest
      exact ⟨rfl, rfl⟩

end Scanning

section Faults

variable {names earlier later : List String} {name template : String} {isOpen : Bool}

theorem ofName?_eq_some_iff {f : TemplateField} :
    TemplateField.ofName? name = some f ↔ f.name = name := by
  refine ⟨name_of_ofName?, ?_⟩
  rintro rfl
  cases f <;> decide

theorem ofName?_eq_none_iff : TemplateField.ofName? name = none ↔ name ∉ fieldNames := by
  rw [Option.eq_none_iff_forall_ne_some]
  constructor
  · intro h hmem
    simp only [fieldNames, List.mem_cons, List.not_mem_nil, or_false] at hmem
    rcases hmem with rfl | rfl | rfl
    · exact h .topic (by decide)
    · exact h .partition (by decide)
    · exact h .offset (by decide)
  · rintro h f hf
    refine h ?_
    rw [← name_of_ofName? hf]
    cases f <;> decide

theorem Flawless.sublist {names' : List String} (h : Flawless names)
    (hsub : names'.Sublist names) : Flawless names' :=
  ⟨fun name hname => h.1 name (hsub.subset hname), h.2.sublist hsub⟩

theorem flawless_concat : Flawless (earlier ++ [name]) ↔
    Flawless earlier ∧ name ∈ fieldNames ∧ name ∉ earlier := by
  unfold Flawless
  rw [List.forall_mem_append, List.forall_mem_singleton, List.nodup_append]
  constructor
  · rintro ⟨⟨hknown, hname⟩, hnodup, -, hnew⟩
    exact ⟨⟨hknown, hnodup⟩, hname, fun hmem => hnew name hmem name List.mem_cons_self rfl⟩
  · rintro ⟨⟨hknown, hnodup⟩, hname, hnew⟩
    refine ⟨⟨hknown, hname⟩, hnodup, List.pairwise_singleton _ _, ?_⟩
    rintro n hn m hm rfl
    rw [List.mem_singleton.1 hm] at hn
    exact hnew hn

theorem not_flawless_of_fault (hname : ¬ Flawless (earlier ++ [name])) (later : List String) :
    ¬ Flawless (earlier ++ name :: later) := by
  intro h
  have hsub : (earlier ++ [name]).Sublist (earlier ++ name :: later) :=
    (List.singleton_sublist.2 List.mem_cons_self).append_left earlier
  exact hname (h.sublist hsub)

/-- The names up to a fault are all names without one before it. -/
theorem length_le_of_fault {earlier' later' : List String}
    (h : earlier ++ name :: later = earlier' ++ later') (hearlier' : Flawless earlier')
    (hname : ¬ Flawless (earlier ++ [name])) : earlier'.length ≤ earlier.length := by
  by_cases hle : earlier'.length ≤ earlier.length
  · exact hle
  · have hprefix : earlier ++ [name] <+: earlier' := by
      refine List.prefix_of_prefix_length_le ⟨later, ?_⟩ ⟨later', h.symm⟩ ?_
      · rw [List.append_assoc]
        rfl
      · rw [List.length_append, List.length_singleton]
        omega
    exact absurd (hearlier'.sublist hprefix.sublist) hname

/-- The error for a name at fault. -/
def faultOf (template name : String) : ConfigError :=
  if name ∈ fieldNames then .repeatedPlaceholder name template
  else .unknownPlaceholder name template

/-- A first fault is an open placeholder after names without a fault, or else it is a name. -/
theorem FirstFault.open_or_name {e : ConfigError} (h : FirstFault template names isOpen e) :
    (Flawless names ∧ isOpen = true ∧ e = .openPlaceholder template) ∨
      ∃ earlier name later, names = earlier ++ name :: later ∧ Flawless earlier ∧
        ¬ Flawless (earlier ++ [name]) ∧ e = faultOf template name := by
  cases h with
  | unclosed hnames hopen => exact .inl ⟨hnames, hopen, rfl⟩
  | unknown hnames hearlier hname =>
    refine .inr ⟨_, _, _, hnames, hearlier, fun h => hname (flawless_concat.1 h).2.1, ?_⟩
    rw [faultOf, if_neg hname]
  | repeated hnames hearlier hname =>
    refine .inr ⟨_, _, _, hnames, hearlier, fun h => (flawless_concat.1 h).2.2 hname, ?_⟩
    rw [faultOf, if_pos (hearlier.1 _ hname)]

theorem FirstFault.not_flawless {e : ConfigError} (h : FirstFault template names isOpen e)
    (hopen : isOpen = false) : ¬ Flawless names := by
  rcases h.open_or_name with ⟨-, htrue, -⟩ | ⟨earlier, name, later, rfl, -, hname, -⟩
  · cases hopen.symm.trans htrue
  · exact not_flawless_of_fault hname later

/-- **There is one first fault.** -/
theorem FirstFault.unique {e e' : ConfigError} (h : FirstFault template names isOpen e)
    (h' : FirstFault template names isOpen e') : e = e' := by
  rcases h.open_or_name with ⟨hnames, -, rfl⟩ | ⟨a, n, b, hsplit, ha, hn, rfl⟩ <;>
    rcases h'.open_or_name with ⟨hnames', -, rfl⟩ | ⟨a', n', b', hsplit', ha', hn', rfl⟩
  · rfl
  · exact absurd (hsplit' ▸ hnames) (not_flawless_of_fault hn' b')
  · exact absurd (hsplit ▸ hnames') (not_flawless_of_fault hn b)
  · -- neither of two names at fault is before the other
    have hsame : a ++ n :: b = a' ++ n' :: b' := hsplit.symm.trans hsplit'
    have hle := length_le_of_fault hsame ha' hn
    have hge := length_le_of_fault hsame.symm ha hn'
    obtain ⟨-, htail⟩ := List.append_inj hsame (by omega)
    rw [(List.cons.inj htail).1]

end Faults

section Outcome

variable {template : String} {seen : List TemplateField} {cs literal after inner rest : List Char}
  {inners : List (List Char)} {isOpen : Bool}

theorem scan_last (hopen : splitPair '{' cs = none) :
    scan template seen cs = .ok [.literal cs] := by
  rw [scan]
  split
  · rfl
  · simp_all

theorem scan_unclosed (hopen : splitPair '{' cs = some (literal, after))
    (hclose : splitPair '}' after = none) :
    scan template seen cs = .error (.openPlaceholder template) := by
  rw [scan]
  split
  · simp_all
  · rename_i hsplit
    cases hopen.symm.trans hsplit
    split
    · rfl
    · simp_all

/-- What the scan makes of a placeholder that is ended. -/
theorem scan_placeholder (hopen : splitPair '{' cs = some (literal, after))
    (hclose : splitPair '}' after = some (inner, rest)) :
    scan template seen cs =
      match TemplateField.ofName? (placeholderName inner) with
      | none => .error (.unknownPlaceholder (placeholderName inner) template)
      | some f =>
        if f ∈ seen then .error (.repeatedPlaceholder (placeholderName inner) template)
        else (scan template (f :: seen) rest).map (.literal literal :: .field f :: ·) := by
  rw [scan]
  split
  · simp_all
  · rename_i hsplit
    cases hopen.symm.trans hsplit
    split
    · simp_all
    · rename_i hsplit'
      cases hclose.symm.trans hsplit'
      show (match TemplateField.ofName? (placeholderName inner) with
        | none => _
        | some f => _) = _
      cases TemplateField.ofName? (placeholderName inner) with
      | none => rfl
      | some f =>
        by_cases hold : f ∈ seen
        · exact (if_pos hold).trans (if_pos hold).symm
        · refine (if_neg hold).trans (Eq.trans ?_ (if_neg hold).symm)
          cases scan template (f :: seen) rest <;> rfl

/-- What the scan of a text comes to: its pieces if there is no fault, and else the first fault. -/
def Comes (template : String) (names : List String) (isOpen : Bool) :
    Except ConfigError (List TemplatePiece) → Prop
  | .ok _ => isOpen = false ∧ Flawless names
  | .error e => FirstFault template names isOpen e

/-- **What the scan of a text comes to**, after placeholders with other names. By induction on the
placeholders of the text: each name is one more of the names before. -/
theorem scan_outcome (h : Scans cs inners isOpen) {earlier : List String}
    (hseen : ∀ f : TemplateField, f ∈ seen ↔ f.name ∈ earlier) (hearlier : Flawless earlier) :
    Comes template (earlier ++ inners.map placeholderName) isOpen (scan template seen cs) := by
  induction h generalizing seen earlier with
  | last hopen =>
    rw [scan_last (splitPair_eq_none_iff.2 hopen), List.map_nil, List.append_nil]
    exact ⟨rfl, hearlier⟩
  | unclosed hopen hclose =>
    rw [scan_unclosed (splitPair_append hopen) (splitPair_eq_none_iff.2 hclose), List.map_nil,
      List.append_nil]
    exact .unclosed hearlier rfl
  | @field literal inner rest inners isOpen hopen hclose _ ih =>
    rw [scan_placeholder (splitPair_append hopen) (splitPair_append hclose), List.map_cons]
    cases hf : TemplateField.ofName? (placeholderName inner) with
    | none => exact .unknown rfl hearlier (ofName?_eq_none_iff.1 hf)
    | some f =>
      have hname : f.name = placeholderName inner := ofName?_eq_some_iff.1 hf
      by_cases hold : f ∈ seen
      · simp only [if_pos hold]
        exact .repeated rfl hearlier (hname ▸ (hseen f).1 hold)
      · simp only [if_neg hold]
        have hnew : placeholderName inner ∉ earlier := by
          rw [← hname, ← hseen f]
          exact hold
        have hknown : placeholderName inner ∈ fieldNames := by
          by_cases hmem : placeholderName inner ∈ fieldNames
          · exact hmem
          · cases hf.symm.trans (ofName?_eq_none_iff.2 hmem)
        -- the fields that have been seen go on to be those with the names before
        have hnext : ∀ g : TemplateField,
            g ∈ f :: seen ↔ g.name ∈ earlier ++ [placeholderName inner] := by
          intro g
          rw [List.mem_cons, List.mem_append, List.mem_singleton, hseen g, ← hname, or_comm]
          refine or_congr_right ⟨fun hg => by rw [hg], fun hg => ?_⟩
          exact Option.some.inj ((ofName?_eq_some_iff.2 hg).symm.trans (ofName?_eq_some_iff.2 rfl))
        have hrest := ih hnext (flawless_concat.2 ⟨hearlier, hknown, hnew⟩)
        rw [List.append_assoc, List.singleton_append] at hrest
        cases hscan : scan template (f :: seen) rest with
        | error e =>
          rw [hscan] at hrest
          exact hrest
        | ok ps =>
          rw [hscan] at hrest
          exact hrest

theorem compile_eq_ok_iff {source : String} {t : Template} :
    compile source = .ok t ↔ scan source [] source.toList = .ok t.pieces ∧ t.source = source := by
  unfold compile
  cases scan source [] source.toList with
  | error e => exact ⟨nofun, nofun⟩
  | ok ps =>
    constructor
    · rintro ⟨⟩
      exact ⟨rfl, rfl⟩
    · rintro ⟨hpieces, rfl⟩
      rw [Except.ok.inj hpieces]
      rfl

theorem compile_outcome {source : String} (h : Scans source.toList inners isOpen) :
    ((∃ t, compile source = .ok t) → isOpen = false ∧ Flawless (inners.map placeholderName)) ∧
      ∀ e, compile source = .error e →
        FirstFault source (inners.map placeholderName) isOpen e := by
  have hnone : Flawless [] := ⟨by simp, List.nodup_nil⟩
  have houtcome : Comes source (inners.map placeholderName) isOpen (scan source [] source.toList) :=
    scan_outcome h (fun f => by simp) hnone
  constructor
  · rintro ⟨t, ht⟩
    rw [(compile_eq_ok_iff.1 ht).1] at houtcome
    exact houtcome
  · intro e he
    unfold compile at he
    cases hscan : scan source [] source.toList with
    | ok ps =>
      rw [hscan] at he
      cases he
    | error e' =>
      rw [hscan] at he houtcome
      cases he
      exact houtcome

end Outcome

section Respacing

/-- A text without the brace has no pair of it, even with one more brace after it. -/
theorem not_infix_of_notMem {a : Char} {inner : List Char} (h : a ∉ inner) :
    ¬ [a, a] <:+: inner ++ [a] := by
  intro hinfix
  have hcount := hinfix.sublist.count_le a
  rw [List.count_append, List.count_eq_zero.2 h] at hcount
  simp at hcount

/-- There are no braces around the name of a field. -/
theorem close_notMem {name pad pad' : List Char} {f : TemplateField}
    (hname : f.name = placeholderName name) (hpad : ∀ c ∈ pad, Text.isBlank c = true)
    (hpad' : ∀ c ∈ pad', Text.isBlank c = true) : '}' ∉ pad ++ name ++ pad' := by
  have hbrace : ¬ Text.isBlank '}' = true := by decide
  intro hmem
  rw [List.mem_append, List.mem_append] at hmem
  rcases hmem with (h | h) | h
  · exact hbrace (hpad _ h)
  · rcases Text.mem_trim_or_blank h with htrim | hblank
    · have hfield : '}' ∈ f.name.toList := by
        rw [hname, placeholderName, String.toList_ofList]
        exact htrim
      cases f <;> exact absurd hfield (by decide)
    · exact hbrace hblank
  · exact hbrace (hpad' _ h)

theorem placeholderName_padded {name pad pad' : List Char} (hpad : ∀ c ∈ pad, Text.isBlank c = true)
    (hpad' : ∀ c ∈ pad', Text.isBlank c = true) :
    placeholderName (pad ++ name ++ pad') = placeholderName name := by
  rw [placeholderName, Text.trim_padded hpad hpad', ← placeholderName]

/-- What a scan without an error makes of a placeholder that is ended. -/
theorem scan_placeholder_ok {template : String} {seen : List TemplateField}
    {cs literal after inner rest : List Char} {ps : List TemplatePiece}
    (hopen : splitPair '{' cs = some (literal, after))
    (hclose : splitPair '}' after = some (inner, rest)) :
    scan template seen cs = .ok ps ↔
      ∃ f ps', f.name = placeholderName inner ∧ f ∉ seen ∧
        scan template (f :: seen) rest = .ok ps' ∧ ps = .literal literal :: .field f :: ps' := by
  rw [scan_placeholder hopen hclose]
  constructor
  · intro h
    cases hf : TemplateField.ofName? (placeholderName inner) with
    | none => simp [hf] at h
    | some f =>
      simp only [hf] at h
      by_cases hold : f ∈ seen
      · simp [hold] at h
      · rw [if_neg hold] at h
        cases hscan : scan template (f :: seen) rest with
        | error e =>
          rw [hscan] at h
          cases h
        | ok ps' =>
          rw [hscan] at h
          exact ⟨f, ps', ofName?_eq_some_iff.1 hf, hold, hscan, (Except.ok.inj h).symm⟩
  · rintro ⟨f, ps', hname, hnew, hscan, rfl⟩
    rw [ofName?_eq_some_iff.2 hname]
    simp only [if_neg hnew, hscan]
    rfl

/-- **Blank characters around the names count for nothing.** By induction on the placeholders. -/
theorem scan_respaced {template template' : String} {cs cs' : List Char} (h : Respaced cs cs')
    {seen : List TemplateField} {ps : List TemplatePiece} (hscan : scan template seen cs = .ok ps) :
    scan template' seen cs' = .ok ps := by
  induction h generalizing seen ps with
  | last hopen =>
    rw [scan_last (splitPair_eq_none_iff.2 hopen)] at hscan ⊢
    exact hscan
  | @field literal name pad₁ pad₂ pad₃ pad₄ rest rest' hopen hclose hpad _ ih =>
    simp only [List.forall_mem_cons] at hpad
    obtain ⟨hpad₁, hpad₂, hpad₃, hpad₄, -⟩ := hpad
    obtain ⟨f, ps', hname, hnew, hrest, rfl⟩ :=
      (scan_placeholder_ok (splitPair_append hopen) (splitPair_append hclose)).1 hscan
    rw [placeholderName_padded hpad₁ hpad₂] at hname
    -- the placeholder ends where it did, as the name of a field has no brace
    have hclose' := not_infix_of_notMem (close_notMem hname hpad₃ hpad₄)
    refine (scan_placeholder_ok (splitPair_append hopen) (splitPair_append hclose')).2
      ⟨f, ps', ?_, hnew, ih hrest, rfl⟩
    rw [placeholderName_padded hpad₃ hpad₄, hname]

end Respacing

/-- **A text is compiled if and only if it has no fault.** It has one way to be scanned from the
left. It is compiled if all of its placeholders are ended and have different names of fields,
without regard to blank characters at their ends; else the error is the one for the first
placeholder at fault. A template keeps the text, and other blank characters around the names make a
template that matches the same keys with the same fields. -/
theorem compiles_grammar (source : String) :
    ∃ inners isOpen, Scans source.toList inners isOpen ∧
      (∀ inners' isOpen', Scans source.toList inners' isOpen' →
        inners' = inners ∧ isOpen' = isOpen) ∧
      ((∃ t, compile source = .ok t) ↔
        isOpen = false ∧ Flawless (inners.map placeholderName)) ∧
      (∀ e, compile source = .error e ↔
        FirstFault source (inners.map placeholderName) isOpen e) ∧
      ∀ t, compile source = .ok t → t.source = source ∧
        ∀ source' : String, Respaced source.toList source'.toList →
          ∃ t', compile source' = .ok t' ∧ ∀ key, t'.match? key = t.match? key := by
  obtain ⟨inners, isOpen, hscans⟩ := exists_scans source.toList
  obtain ⟨hok, herror⟩ := compile_outcome hscans
  refine ⟨inners, isOpen, hscans, fun _ _ h => hscans.unique h, ⟨hok, fun ⟨hopen, hnames⟩ => ?_⟩,
    fun e => ⟨herror e, fun hfault => ?_⟩, fun t ht => ?_⟩
  · cases hcompile : compile source with
    | ok t => exact ⟨t, rfl⟩
    | error e => exact absurd hnames ((herror e hcompile).not_flawless hopen)
  · cases hcompile : compile source with
    | ok t =>
      obtain ⟨hopen, hnames⟩ := hok ⟨t, hcompile⟩
      exact absurd hnames (hfault.not_flawless hopen)
    | error e' => rw [(herror e' hcompile).unique hfault]
  · obtain ⟨hscan, hsource⟩ := compile_eq_ok_iff.1 ht
    refine ⟨hsource, fun source' hspaces => ?_⟩
    have hcompile : compile source' = .ok ⟨source', t.pieces⟩ :=
      compile_eq_ok_iff.2 ⟨scan_respaced hspaces hscan, rfl⟩
    exact ⟨_, hcompile, fun key => rfl⟩

/-- A template with a blank character before the name, and one with two after it. -/
def spacedSource : String := "\x7b\x7b topic\x7d\x7d-"

def respacedSource : String := "\x7b\x7btopic  \x7d\x7d-"

/-- A placeholder starts at the first of three braces, so its name has the third one. -/
def bracedSource : String := "\x7b\x7b\x7btopic\x7d\x7d\x7d"

theorem compiles_grammar_sample :
    (∃ t t', compile spacedSource = .ok t ∧ compile respacedSource = .ok t' ∧
      ∀ key, t'.match? key = t.match? key) ∧
    compile bracedSource = .error (.unknownPlaceholder "\x7btopic" bracedSource) := by
  have htopic : placeholderName [' ', 't', 'o', 'p', 'i', 'c'] = "topic" := by decide +kernel
  have hbraced : placeholderName ['{', 't', 'o', 'p', 'i', 'c'] = "\x7btopic" := by decide +kernel
  constructor
  · obtain ⟨inners, isOpen, -, hunique, hok, -, hsame⟩ := compiles_grammar spacedSource
    have hchars : spacedSource.toList =
        [] ++ '{' :: '{' :: ([' ', 't', 'o', 'p', 'i', 'c'] ++ '}' :: '}' :: ['-']) := by
      decide +kernel
    have hchars' : respacedSource.toList =
        [] ++ '{' :: '{' ::
          ([] ++ ['t', 'o', 'p', 'i', 'c'] ++ [' ', ' '] ++ '}' :: '}' :: ['-']) := by
      decide +kernel
    have hscans : Scans spacedSource.toList [[' ', 't', 'o', 'p', 'i', 'c']] false := by
      rw [hchars]
      exact .field (by decide) (by decide) (.last (by decide))
    obtain ⟨rfl, rfl⟩ := hunique _ _ hscans
    have hnames : Flawless ([[' ', 't', 'o', 'p', 'i', 'c']].map placeholderName) := by
      rw [List.map_singleton, htopic]
      decide
    obtain ⟨t, ht⟩ := hok.2 ⟨rfl, hnames⟩
    have hspaces : Respaced spacedSource.toList respacedSource.toList := by
      rw [hchars, hchars']
      have hblank : Text.isBlank ' ' = true := by decide
      exact @Respaced.field [] ['t', 'o', 'p', 'i', 'c'] [' '] [] [] [' ', ' '] _ _ (by decide)
        (by decide) (by simp [hblank]) (.last (by decide))
    obtain ⟨t', ht', hmatch⟩ := (hsame t ht).2 respacedSource hspaces
    exact ⟨t, t', ht, ht', hmatch⟩
  · obtain ⟨inners, isOpen, -, hunique, -, herror, -⟩ := compiles_grammar bracedSource
    have hchars : bracedSource.toList =
        [] ++ '{' :: '{' :: (['{', 't', 'o', 'p', 'i', 'c'] ++ '}' :: '}' :: ['}']) := by
      decide +kernel
    have hscans : Scans bracedSource.toList [['{', 't', 'o', 'p', 'i', 'c']] false := by
      rw [hchars]
      exact .field (by decide) (by decide) (.last (by decide))
    obtain ⟨rfl, rfl⟩ := hunique _ _ hscans
    refine (herror _).2 ?_
    rw [List.map_singleton, hbraced]
    exact @FirstFault.unknown _ _ _ [] [] _ rfl ⟨by decide, by decide⟩ (by decide)

end Template

end ObjectFeed
