import Mathlib
import ObjectFeed.Proofs.LineReading

/-!
# Envelopes

A stream of lines with envelopes is the stream without them, followed by a conversion of its values.
Each value is converted when its line is read, so the first one that is no envelope ends the stream
at its line, and a line at fault before it ends both streams in the same way.

* `Body.written`: the lines that are not blank, with their numbers among all lines.
* `Envelope`: the values that are envelopes, and the records in them.
* `Transcript.ofValues`: what is made of values with their numbers, up to the first one at fault.
* `Transcript.exists_values`: **what lines are made of depends on the conversion of their values
  alone.**
* `RecordStream.delivers_envelopes`: **what a stream of envelopes delivers, by the stream of
  values.**
-/

namespace ObjectFeed

/-- The line is the text of a JSON value, which blank characters may surround. -/
def Bytes.Spells (line : Bytes) (v : Json) : Prop :=
  ∃ s, text? line = some s ∧ Json.parse (Text.trim s.toList) = .ok v

theorem Bytes.spells_ofText {s : String} {v : Json} :
    (ofText s).Spells v ↔ Json.parse (Text.trim s.toList) = .ok v := by
  have htext : text? (ofText s) = some s := text?_eq_some_iff.2 rfl
  simp only [Spells, htext, Option.some.injEq, exists_eq_left']

/-- The lines that are not blank, with their numbers among all lines. -/
def Bytes.numbered (number : Nat) (lines : List Bytes) : List (Bytes × Nat) :=
  (lines.zipIdx number).filter fun line => !line.1.isBlank

/-- The lines of a body that are not blank, with their numbers, blank ones included. -/
def Body.written (body : Body) : List (Bytes × Nat) := Bytes.numbered 1 body.lines

/-- The value is an object with a schema and a payload, in any order and among others, and this is
the record in it: the payload, with the text of the schema unless that is null. -/
inductive Envelope : Json → Record → Prop where
  | plain {ms : Members Json} {payload : Json} (hschema : ms.get? "schema" = some .null)
    (hpayload : ms.get? "payload" = some payload) :
    Envelope (.object ms) { payload := .structured payload }
  | described {ms : Members Json} {schema payload : Json} (hschema : ms.get? "schema" = some schema)
    (hnull : schema ≠ .null) (hpayload : ms.get? "payload" = some payload) :
    Envelope (.object ms) { schema := schema.compact, payload := .structured payload }

namespace Lines

variable {v : Json} {r : Record} {number : Nat}

theorem unwrap_eq_ok_iff : unwrap number v = .ok r ↔ Envelope v r := by
  constructor
  · intro h
    unfold unwrap at h
    split at h
    · rename_i ms
      split at h
      · rename_i payload hschema hpayload
        rw [← Except.ok.inj h]
        exact .plain hschema hpayload
      · rename_i schema payload hnull hschema hpayload
        rw [← Except.ok.inj h]
        exact .described hschema hnull hpayload
      · cases h
    · cases h
  · intro h
    cases h with
    | plain hschema hpayload => simp only [unwrap, hschema, hpayload]
    | described hschema hnull hpayload =>
      rename_i ms schema payload
      simp only [unwrap, hschema, hpayload]

/-- A value that is no envelope is at fault, and the number of its line is in the message. -/
theorem unwrap_eq_error (number : Nat) (h : ∀ r, ¬ Envelope v r) :
    ∃ e detail, unwrap number v = .error e ∧
      e.message = "line " ++ toString number ++ ": " ++ detail := by
  cases hv : unwrap number v with
  | ok r => exact absurd (unwrap_eq_ok_iff.1 hv) (h r)
  | error e =>
    unfold unwrap at hv
    split at hv
    · split at hv
      · cases hv
      · cases hv
      · have hdetail : (": envelope must contain 'schema' and 'payload' fields" : String) =
            ": " ++ "envelope must contain 'schema' and 'payload' fields" := by decide
        refine ⟨e, "envelope must contain 'schema' and 'payload' fields", rfl, ?_⟩
        rw [← Except.error.inj hv]
        calc
          _ = "line " ++ toString number ++
              ": envelope must contain 'schema' and 'payload' fields" := rfl
          _ = "line " ++ toString number ++
              (": " ++ "envelope must contain 'schema' and 'payload' fields") := by rw [← hdetail]
          _ = _ := String.append_assoc.symm
    · have hdetail : (": expected a schema/payload envelope" : String) =
          ": " ++ "expected a schema/payload envelope" := by decide
      refine ⟨e, "expected a schema/payload envelope", rfl, ?_⟩
      rw [← Except.error.inj hv]
      calc
        _ = "line " ++ toString number ++ ": expected a schema/payload envelope" := rfl
        _ = "line " ++ toString number ++ (": " ++ "expected a schema/payload envelope") := by
          rw [← hdetail]
        _ = _ := String.append_assoc.symm

end Lines

namespace Transcript

/-- What is made of values with the numbers of their lines, until one of them is at fault. -/
def ofValues (convert : Nat → Json → Except DecodeError Record) (ending : Option DecodeError) :
    List (Json × Nat) → Transcript
  | [] => ⟨[], ending⟩
  | (v, number) :: values =>
    match convert number v with
    | .error e => ⟨[], some e⟩
    | .ok r =>
      let rest := ofValues convert ending values
      { rest with records := r :: rest.records }

variable {convert : Nat → Json → Except DecodeError Record} {ending : Option DecodeError}

/-- Values that all convert give a record each. -/
theorem ofValues_of_forall {values : List (Json × Nat)} {records : List Record}
    (h : List.Forall₂ (fun v r => convert v.2 v.1 = .ok r) values records) :
    ofValues convert ending values = ⟨records, ending⟩ := by
  induction h with
  | nil => rfl
  | cons hv _ ih => simp only [ofValues, hv, ih]

/-- The first value that does not convert is the last one that counts. -/
theorem ofValues_of_fault {before after : List (Json × Nat)} {v : Json} {number : Nat}
    {records : List Record} {e : DecodeError}
    (h : List.Forall₂ (fun v r => convert v.2 v.1 = .ok r) before records)
    (hv : convert number v = .error e) :
    ofValues convert ending (before ++ (v, number) :: after) = ⟨records, some e⟩ := by
  induction h with
  | nil => simp only [List.nil_append, ofValues, hv]
  | cons hb _ ih => simp only [List.cons_append, ofValues, hb, ih]

/-- **What lines are made of depends on the conversion of their values alone.** The values are those
of the lines that are not blank, up to the first one without a value, and the ending after them is
the same for all conversions. -/
theorem exists_values (ending : Option DecodeError) (number : Nat) (lines : List Bytes) :
    ∃ (values : List (Json × Nat)) (ending' : Option DecodeError),
      List.Forall₂ (fun line v => line.1.Spells v.1 ∧ line.2 = v.2)
        ((Bytes.numbered number lines).take values.length) values ∧
      (∀ line, (Bytes.numbered number lines)[values.length]? = some line →
        ∀ v, ¬ line.1.Spells v) ∧
      ∀ convert, ofLines convert ending number lines = ofValues convert ending' values := by
  induction lines generalizing number with
  | nil => exact ⟨[], ending, .nil, fun _ h => by simp [Bytes.numbered] at h, fun _ => rfl⟩
  | cons line lines ih =>
    have hblank : line.isBlank =
        (Bytes.text? line).any fun s => (Text.trim s.toList).isEmpty := rfl
    have hskip : line.isBlank = true →
        Bytes.numbered number (line :: lines) = Bytes.numbered (number + 1) lines := by
      intro h
      rw [Bytes.numbered, List.zipIdx_cons, List.filter_cons_of_neg (by simp [h]), Bytes.numbered]
    have hkeep : line.isBlank = false → Bytes.numbered number (line :: lines) =
        (line, number) :: Bytes.numbered (number + 1) lines := by
      intro h
      rw [Bytes.numbered, List.zipIdx_cons, List.filter_cons_of_pos (by simp [h]), Bytes.numbered]
    cases htext : Bytes.text? line with
    | none =>
      refine ⟨[], some (.readLine number invalidText), .nil, ?_, fun convert => ?_⟩
      · rw [hkeep (by rw [hblank, htext, Option.any_none])]
        rintro _ ⟨⟩ v ⟨s, hs, -⟩
        rw [htext] at hs
        cases hs
      · simp only [ofLines, htext, ofValues]
    | some s =>
      by_cases hempty : Text.trim s.toList = []
      · -- a blank line counts among the lines and nowhere else
        obtain ⟨values, ending', hvalues, hlast, hmade⟩ := ih (number + 1)
        have hdrop : line.isBlank = true := by
          rw [hblank, htext, Option.any_some, hempty, List.isEmpty_nil]
        rw [hskip hdrop]
        refine ⟨values, ending', hvalues, hlast, fun convert => ?_⟩
        simp only [ofLines, htext, hempty, if_true, hmade]
      · have hstay : line.isBlank = false := by
          rw [hblank, htext, Option.any_some, ← Bool.not_eq_true, List.isEmpty_iff]
          exact hempty
        rw [hkeep hstay]
        cases hparse : Json.parse (Text.trim s.toList) with
        | error e =>
          refine ⟨[], some (.parseLine number (String.ofList (Text.trim s.toList)) e), .nil, ?_,
            fun convert => ?_⟩
          · rintro _ ⟨⟩ v ⟨s', hs', hv⟩
            obtain rfl := Option.some.inj (htext.symm.trans hs')
            rw [hparse] at hv
            cases hv
          · simp only [ofLines, htext, hempty, if_false, hparse, ofValues]
        | ok v =>
          obtain ⟨values, ending', hvalues, hlast, hmade⟩ := ih (number + 1)
          refine ⟨(v, number) :: values, ending', .cons ⟨⟨s, htext, hparse⟩, rfl⟩ hvalues, hlast,
            fun convert => ?_⟩
          cases hconvert : convert number v <;>
            simp only [ofLines, htext, hempty, if_false, hparse, ofValues, hmade, hconvert]

end Transcript

namespace RecordStream

variable {σ : Type} [ObjectStore σ] {store : σ} {body : Body}

/-- **What a stream of envelopes delivers**, by what the stream of values over the same reads
delivers. Those are the values of the lines that are not blank, up to the first one without a value.
If all of them are envelopes, the records in them are delivered in their order, and the stream ends
as the one of values does. Otherwise the records before the first value that is no envelope are
delivered, and then one error that names the line of that value, with blank lines counted. -/
theorem delivers_envelopes (bucket objectKey : String) (o : Offset)
    (hs : Serves store bucket objectKey body) :
    let stream (envelopes : Bool) :=
      start (.jsonl envelopes) bucket objectKey { o with count := 0 }
    ∃ (values : List (Json × Nat)) (ending : Option DecodeError),
      List.Forall₂ (fun line v => line.1.Spells v.1 ∧ line.2 = v.2)
        (body.written.take values.length) values ∧
      (∀ line, body.written[values.length]? = some line → ∀ v, ¬ line.1.Spells v) ∧
      (stream false).Delivers store (values.map fun v => { payload := .structured v.1 }) ending ∧
      (∀ records, List.Forall₂ (fun v r => Envelope v.1 r) values records →
        (stream true).Delivers store records ending) ∧
      ∀ before v number after records, values = before ++ (v, number) :: after →
        List.Forall₂ (fun v r => Envelope v.1 r) before records → (∀ r, ¬ Envelope v r) →
        ∃ e detail, e.message = "line " ++ toString number ++ ": " ++ detail ∧
          (stream true).Delivers store records (some e) := by
  intro stream
  obtain ⟨values, ending, hvalues, hlast, hmade⟩ := Transcript.exists_values
    (body.content.2.map (.readLine (body.lines.length + 1))) 1 body.lines
  have hdelivers : ∀ envelopes records failure,
      Transcript.ofValues (Lines.convert envelopes) ending values = ⟨records, failure⟩ →
      (stream envelopes).Delivers store records failure := by
    intro envelopes records failure hconverted
    have hlines := Lines.transcript_eq { body, envelopes }
    rw [Lines.ending, Nat.zero_add, hmade] at hlines
    have htranscript : body.transcript (.jsonl envelopes) o.key = ⟨records, failure⟩ :=
      hlines.trans hconverted
    have hstart := delivers_start (.jsonl envelopes) { o with count := 0 } hs
    simp only [List.drop_zero, htranscript] at hstart
    exact hstart
  refine ⟨values, ending, hvalues, hlast, ?_, ?_, ?_⟩
  · refine hdelivers false _ _ (Transcript.ofValues_of_forall ?_)
    rw [List.forall₂_map_right_iff]
    exact List.forall₂_same.2 fun v _ => rfl
  · intro records hrecords
    refine hdelivers true _ _ (Transcript.ofValues_of_forall ?_)
    exact hrecords.imp fun _ _ h => Lines.unwrap_eq_ok_iff.2 h
  · intro before v number after records hsplit hrecords hv
    obtain ⟨e, detail, hfault, hmessage⟩ := Lines.unwrap_eq_error number hv
    refine ⟨e, detail, hmessage, hdelivers true _ _ ?_⟩
    rw [hsplit]
    exact Transcript.ofValues_of_fault (hrecords.imp fun _ _ h => Lines.unwrap_eq_ok_iff.2 h) hfault

/-- Two envelopes with a blank line between them and a list after them, in ragged reads. -/
def envelopeBody : Body :=
  [.data (Bytes.ofText "\x7b\"schema\":\"s\",\"payload\":true\x7d\n \n\x7b\"pay"), .interrupted,
    .data (Bytes.ofText "load\":[],\"schema\":null\x7d\n[]\n")]

set_option maxRecDepth 2000 in
theorem delivers_envelopes_sample :
    ∃ e detail, e.message = "line " ++ toString 4 ++ ": " ++ detail ∧
      (start (.jsonl true) "store" "c" { key := ⟨"store", "t", none, "c"⟩ }).Delivers
        ({ buckets := .ofList [("store", .ofList [("c", envelopeBody)])] } : MemoryObjects)
        [{ schema := Json.compact (.string "s"), payload := .structured (.bool true) },
          { payload := .structured (.array []) }] (some e) := by
  have hs : Serves ({ buckets := .ofList [("store", .ofList [("c", envelopeBody)])] } :
      MemoryObjects) "store" "c" envelopeBody := ⟨_, rfl⟩
  obtain ⟨values, ending, hvalues, hlast, -, -, hfault⟩ :=
    delivers_envelopes "store" "c" { key := ⟨"store", "t", none, "c"⟩ } hs
  have hwritten : envelopeBody.written =
      [(Bytes.ofText "\x7b\"schema\":\"s\",\"payload\":true\x7d", 1),
        (Bytes.ofText "\x7b\"payload\":[],\"schema\":null\x7d", 3), (Bytes.ofText "[]", 4)] := by
    decide +kernel
  have hfirst : Json.parse (Text.trim "\x7b\"schema\":\"s\",\"payload\":true\x7d".toList) =
      .ok (.object [("payload", .bool true), ("schema", .string "s")]) := by cbv
  have hsecond : Json.parse (Text.trim "\x7b\"payload\":[],\"schema\":null\x7d".toList) =
      .ok (.object [("payload", .array []), ("schema", .null)]) := by cbv
  have hthird : Json.parse (Text.trim "[]".toList) = .ok (.array []) := by cbv
  rw [hwritten] at hvalues hlast
  obtain _ | ⟨⟨v, _⟩, _ | ⟨⟨w, _⟩, _ | ⟨⟨x, _⟩, _ | _⟩⟩⟩ := values
  · exact absurd (Bytes.spells_ofText.2 hfirst) (hlast _ rfl _)
  · exact absurd (Bytes.spells_ofText.2 hsecond) (hlast _ rfl _)
  · exact absurd (Bytes.spells_ofText.2 hthird) (hlast _ rfl _)
  · obtain ⟨⟨hv, -⟩, ⟨hw, -⟩, hx, rfl⟩ : (_ ∧ _) ∧ (_ ∧ _) ∧ _ ∧ _ := by simpa using hvalues
    rw [Bytes.spells_ofText, hfirst, Except.ok.injEq] at hv
    rw [Bytes.spells_ofText, hsecond, Except.ok.injEq] at hw
    rw [Bytes.spells_ofText, hthird, Except.ok.injEq] at hx
    subst hv hw hx
    refine hfault _ _ _ [] _ rfl (.cons (.described rfl ?_ rfl) (.cons (.plain rfl rfl) .nil)) ?_
    · intro hnull
      cases hnull
    · intro r henvelope
      cases henvelope
  · simp at hvalues

end RecordStream

end ObjectFeed
