import ObjectFeed.Proofs.Turn

/-!
# Runs of a feed

A run is a number of calls in a row. Whatever fails on the way, the outcomes other than failures
of a store are the items of the course, one after the other, and nothing after the last one.

* `Feed.pull_ok`: a pull with enough turns keeps the state and accounts for the course.
* `Feed.calls`: the outcomes of calls in a row.
* `Feed.calls_ok`: **what a run delivers, what it leaves and what it has failed at.**
-/

namespace ObjectFeed.Feed

variable {σ τ : Type}

/-- The outcomes of calls in a row. -/
def calls (next : Feed → World σ τ → Option (Except Error Delivery) × Feed × World σ τ) :
    (n : Nat) → Feed → World σ τ → List (Option (Except Error Delivery)) × Feed × World σ τ
  | 0, f, w => ([], f, w)
  | n + 1, f, w =>
    match next f w with
    | (r, f, w) =>
      match calls next n f w with
      | (rs, f, w) => (r :: rs, f, w)

/-- The outcome is a failure of a store. -/
def isRefusal : Option (Except Error Delivery) → Bool
  | some (.error e) => e.isStore
  | _ => false

/-- The outcomes other than failures of a store. -/
def answers (rs : List (Option (Except Error Delivery))) : List (Option (Except Error Delivery)) :=
  rs.filter fun r => !isRefusal r

/-- A list, and nothing after its last element. -/
def served {α : Type} (items : List α) (n : Nat) : List (Option α) :=
  (List.range n).map fun i => items[i]?

theorem served_succ {α : Type} (items : List α) (n : Nat) :
    served items (n + 1) = items.head? :: served items.tail n := by
  unfold served
  rw [List.range_succ_eq_map, List.map_cons, List.map_map, List.head?_eq_getElem?]
  refine congrArg (items[0]? :: ·) (List.map_congr_left fun i _ => ?_)
  rw [Function.comp, List.getElem?_tail]

theorem getLast?_served {α : Type} {items : List α} {n : Nat} (h : items.length < n) :
    (served items n).getLast? = some none := by
  obtain ⟨m, rfl⟩ : ∃ m, n = m + 1 := ⟨n - 1, by omega⟩
  unfold served
  rw [List.range_succ, List.map_append, List.map_singleton, List.getLast?_concat,
    List.getElem?_eq_none (by omega)]

/-- Nothing is served just after the last item. -/
theorem none_mem_served_iff {α : Type} {items : List α} {n : Nat} :
    none ∈ served items n ↔ items.length < n := by
  constructor
  · intro h
    obtain ⟨i, hi, hnone⟩ := List.mem_map.1 h
    have := List.mem_range.1 hi
    have := List.getElem?_eq_none_iff.1 hnone
    omega
  · intro h
    exact List.mem_of_getLast? (getLast?_served h)

theorem mem_of_mem_served {α : Type} {items : List α} {n : Nat} {x : α}
    (h : some x ∈ served items n) : x ∈ items := by
  obtain ⟨i, -, hi⟩ := List.mem_map.1 h
  exact List.mem_of_getElem? hi

theorem answers_cons_of_answer {r : Option (Except Error Delivery)} (h : isRefusal r = false)
    (rs : List (Option (Except Error Delivery))) : answers (r :: rs) = r :: answers rs := by
  unfold answers
  rw [List.filter_cons_of_pos (by rw [h]; rfl)]

theorem answers_cons_of_refusal {r : Option (Except Error Delivery)} (h : isRefusal r = true)
    (rs : List (Option (Except Error Delivery))) : answers (r :: rs) = answers rs := by
  unfold answers
  rw [List.filter_cons_of_neg (by rw [h]; simp)]

theorem length_calls (next : Feed → World σ τ → Option (Except Error Delivery) × Feed × World σ τ)
    (n : Nat) (f : Feed) (w : World σ τ) : (calls next n f w).1.length = n := by
  induction n generalizing f w with
  | zero => rfl
  | succ n ih => exact congrArg (· + 1) (ih _ _)

/-- The last outcome of a run is the first one, if there are no others. -/
theorem getLast?_cons_none {r : Option (Except Error Delivery)}
    {rs : List (Option (Except Error Delivery))} (h : (r :: rs).getLast? = some none) :
    (rs = [] ∧ r = none) ∨ rs.getLast? = some none := by
  cases rs with
  | nil => exact .inl ⟨rfl, by simpa using h⟩
  | cons r' rs => exact .inr (by simpa using h)

variable [ObjectStore σ] [OffsetStore τ] [ObjectHolder σ] [OffsetHolder τ]
variable {f : Feed} {H : Holdings} {w : World σ τ}

theorem Keeps.trans {f' f'' : Feed} {w' w'' : World σ τ} (h : Keeps H f w f' w')
    (h' : Keeps H f' w' f'' w'') : Keeps H f w f'' w'' where
  setup := h'.setup.trans h.setup
  state := h'.state
  holds := h'.holds
  others k hk := by
    rw [h'.others k (by rw [assignment_congr h.setup]; exact hk)]
    exact h.others k hk

/-- **A pull with enough turns keeps the state and accounts for the course.** -/
theorem pull_ok (hr : Resumable H.persisted) (limit : Nat) (listed : Bool)
    (h : f.StateOK H w.cache) (hw : w.Holds f.lister.bucket H)
    (hlisted : listed = true → f.Settled H) (hlimit : f.load H listed < limit) :
    Keeps H f w (f.pull limit listed w).2.1 (f.pull limit listed w).2.2 ∧
      Accounts H (f.course H w.cache) w.faults (f.pull limit listed w).1
        (f.pull limit listed w).2.1 (f.pull limit listed w).2.2 := by
  induction limit generalizing listed f w with
  | zero => omega
  | succ limit ih =>
    have hturn := turn_ok h hw hr hlisted
    unfold pull
    generalize f.turn listed w = t at hturn ⊢
    cases hturn with
    | outcome keeps accounts => exact ⟨keeps, accounts⟩
    | again keeps course same settled fall =>
      obtain ⟨hkeeps, haccounts⟩ := ih _ keeps.state keeps.holds settled (by omega)
      rw [course, same] at haccounts
      exact ⟨keeps.trans hkeeps, haccounts⟩

/-- What calls in a row keep, deliver and leave. -/
structure RunOK (H : Holdings) (f : Feed) (w : World σ τ)
    (out : List (Option (Except Error Delivery)) × Feed × World σ τ) : Prop where
  keeps : Keeps H f w out.2.1 out.2.2
  faults : w.faults = out.1.countP isRefusal + out.2.2.faults
  answers : answers out.1 = served (f.course H w.cache).items (answers out.1).length
  rest : out.2.1.course H out.2.2.cache = { f.course H w.cache with
    items := (f.course H w.cache).items.drop (Feed.answers out.1).length }
  finished : out.1.getLast? = some none → out.2.1.course H out.2.2.cache = out.2.1.finished

/-- An outcome other than a failure of a store is the first item of the course, if there is one. -/
theorem Accounts.answer {before : Course} {faults : Nat} {r : Option (Except Error Delivery)}
    (h : Accounts H before faults r f w) (hr : isRefusal r = false) :
    r = before.items.head? ∧
      f.course H w.cache = { before with items := before.items.tail } ∧ w.faults = faults ∧
      (r = none → f.course H w.cache = f.finished) := by
  cases h with
  | nothing course finished same =>
    have hitems : before.items = [] := by rw [finished]; rfl
    refine ⟨by rw [hitems]; rfl, ?_, same, fun _ => course.trans finished⟩
    rw [hitems, course, List.tail_nil, ← hitems]
  | item course sound same =>
    rw [course]
    exact ⟨rfl, rfl, same, by simp⟩
  | failure course fewer => simp [isRefusal, Error.isStore] at hr

/-- A failure of a store leaves the course as it is and uses up a failure. -/
theorem Accounts.refusal {before : Course} {faults : Nat} {r : Option (Except Error Delivery)}
    (h : Accounts H before faults r f w) (hr : isRefusal r = true) :
    f.course H w.cache = before ∧ faults = w.faults + 1 := by
  cases h with
  | nothing course finished same => simp [isRefusal] at hr
  | @item x _ _ course sound same =>
    cases x with
    | ok d => simp [isRefusal] at hr
    | error e =>
      rw [isRefusal, sound e rfl] at hr
      simp at hr
  | failure course fewer => exact ⟨course, fewer⟩

/-- Without failures to come a call is answered. -/
theorem Accounts.answers {before : Course} {faults : Nat} {r : Option (Except Error Delivery)}
    (h : Accounts H before faults r f w) (hnone : faults = 0) : isRefusal r = false := by
  refine Bool.eq_false_iff.2 fun hr => ?_
  have := (h.refusal hr).2
  omega

section Cons

variable {f' f'' : Feed} {w' w'' : World σ τ} {r : Option (Except Error Delivery)}
variable {rs : List (Option (Except Error Delivery))}

/-- A call that is answered serves the first item, and the run after it serves the others. -/
theorem RunOK.cons_answer (hrun : RunOK H f' w' (rs, f'', w'')) (hkeeps : Keeps H f w f' w')
    (haccounts : Accounts H (f.course H w.cache) w.faults r f' w') (hr : isRefusal r = false)
    (hnone : rs = [] → f'' = f' ∧ w'' = w') : RunOK H f w (r :: rs, f'', w'') := by
  obtain ⟨hhead, htail, hsame, hlast⟩ := haccounts.answer hr
  obtain ⟨hkeeps', hfaults, hanswers, hrest, hfinished⟩ := hrun
  simp only at hkeeps' hfaults hanswers hrest hfinished
  have hcons := answers_cons_of_answer hr rs
  rw [htail] at hanswers hrest
  refine ⟨hkeeps.trans hkeeps', ?_, ?_, ?_, ?_⟩
  · rw [List.countP_cons_of_neg (by simp [hr]), ← hsame, hfaults]
  · rw [hcons, List.length_cons, served_succ, ← hhead, ← hanswers]
  · rw [hrest, hcons, List.length_cons, List.drop_tail]
  · intro hlast'
    rcases getLast?_cons_none hlast' with ⟨hnil, hr⟩ | hlast'
    · obtain ⟨rfl, rfl⟩ := hnone hnil
      exact hlast hr
    · exact hfinished hlast'

/-- A call that fails at a store leaves the whole course to the run after it. -/
theorem RunOK.cons_refusal (hrun : RunOK H f' w' (rs, f'', w'')) (hkeeps : Keeps H f w f' w')
    (haccounts : Accounts H (f.course H w.cache) w.faults r f' w') (hr : isRefusal r = true) :
    RunOK H f w (r :: rs, f'', w'') := by
  obtain ⟨hsame, hfewer⟩ := haccounts.refusal hr
  obtain ⟨hkeeps', hfaults, hanswers, hrest, hfinished⟩ := hrun
  simp only at hkeeps' hfaults hanswers hrest hfinished
  have hcons := answers_cons_of_refusal hr rs
  rw [hsame] at hanswers hrest
  refine ⟨hkeeps.trans hkeeps', ?_, ?_, ?_, ?_⟩
  · show w.faults = _ + w''.faults
    rw [List.countP_cons_of_pos hr, hfewer, hfaults]
    omega
  · rw [hcons, ← hanswers]
  · rw [hrest, hcons]
  · intro hlast
    rcases getLast?_cons_none hlast with ⟨-, hr'⟩ | hlast
    · rw [hr'] at hr
      simp [isRefusal] at hr
    · exact hfinished hlast

end Cons

/-- **What a run keeps, delivers and leaves.** -/
theorem calls_ok (next : Feed → World σ τ → Option (Except Error Delivery) × Feed × World σ τ)
    (hnext : ∀ f w, w.Holds f.lister.bucket H →
      ∃ limit, f.load H false < limit ∧ next f w = f.pull limit false w)
    (hr : Resumable H.persisted) (n : Nat) (h : f.StateOK H w.cache)
    (hw : w.Holds f.lister.bucket H) : RunOK H f w (calls next n f w) := by
  induction n generalizing f w with
  | zero =>
    refine ⟨⟨rfl, h, hw, fun _ _ => rfl⟩, ?_, rfl, rfl, by simp [calls]⟩
    exact (Nat.zero_add _).symm
  | succ n ih =>
    obtain ⟨limit, hlimit, hpull⟩ := hnext f w hw
    obtain ⟨hkeeps, haccounts⟩ := pull_ok hr limit false h hw (by simp) hlimit
    rw [← hpull] at hkeeps haccounts
    unfold calls
    generalize next f w = out at hkeeps haccounts ⊢
    obtain ⟨r, f', w'⟩ := out
    have hrun := ih hkeeps.state hkeeps.holds
    -- only a run without calls has no outcomes
    have hnone : (calls next n f' w').1 = [] →
        (calls next n f' w').2.1 = f' ∧ (calls next n f' w').2.2 = w' := by
      intro hnil
      have hlength := length_calls next n f' w'
      rw [hnil] at hlength
      rw [← hlength]
      exact ⟨rfl, rfl⟩
    simp only at hkeeps haccounts hrun ⊢
    cases hr : isRefusal r with
    | false => exact hrun.cons_answer hkeeps haccounts hr hnone
    | true => exact hrun.cons_refusal hkeeps haccounts hr

end ObjectFeed.Feed
