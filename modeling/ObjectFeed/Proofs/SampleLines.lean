import Mathlib.Algebra.Group.Nat.Defs
import ObjectFeed.Fixture.Lines
import ObjectFeed.Proofs.LineReading
import ObjectFeed.Proofs.ValueReading

/-!
# Sample lines are read back

Values that are written one on each line are the records of these lines, since their texts have no
line end in them and are read back. So an object of sample lines gives its samples again, from any
count on and whatever reads it comes in.

* `Bytes.lines_ofText`: the lines of texts with a newline after each.
* `Transcript.ofLines_chars`, `Body.transcript_chars`: **values on lines are decoded as these
  values.**
* `Fixture.sample`, `Fixture.line_eq`: a sample line is the text of its sample.
* `RecordStream.delivers_samples`: **what a stream of sample lines delivers.**
-/

namespace ObjectFeed

open Json (Plain maxNested)

namespace Bytes

theorem newline_notMem_ofText {cs : List Char} (h : '\n' ∉ cs) :
    0x0A ∉ ofText (String.ofList cs) := by
  intro hmem
  rw [ofText_ofList] at hmem
  obtain ⟨c, hc, hbyte⟩ := List.mem_flatMap.1 hmem
  rw [eq_newline_of_mem hbyte] at hc
  exact h hc

/-- Texts without line ends are the lines, if a newline follows each. -/
theorem lines_ofText {ts : List (List Char)} (h : ∀ t ∈ ts, '\n' ∉ t) :
    (ofText (String.ofList (ts.flatMap (· ++ ['\n'])))).lines =
      ts.map fun t => ofText (String.ofList t) := by
  induction ts with
  | nil => rfl
  | cons t ts ih =>
    have hfirst := newline_notMem_ofText (h t List.mem_cons_self)
    have hrest := ih fun t ht => h t (List.mem_cons_of_mem _ ht)
    have hsplit : ofText (String.ofList ((t :: ts).flatMap (· ++ ['\n']))) =
        ofText (String.ofList t) ++ 0x0A :: ofText (String.ofList (ts.flatMap (· ++ ['\n']))) := by
      simp only [ofText_ofList, List.flatMap_cons, List.flatMap_append, List.append_assoc]
      rfl
    rw [hsplit, lines_cons hfirst, hrest, List.map_cons]

end Bytes

/-- **The lines with the texts of values are decoded as these values.** -/
theorem Transcript.ofLines_chars {vs : List Json} (h : ∀ v ∈ vs, Plain maxNested v) (number : Nat) :
    ofLines (fun _ v => .ok { payload := .structured v }) none number
        (vs.map fun v => Bytes.ofText (String.ofList v.chars)) =
      ⟨vs.map fun v => { payload := .structured v }, none⟩ := by
  induction vs generalizing number with
  | nil => rfl
  | cons v vs ih =>
    have hv := h v List.mem_cons_self
    have htext : Bytes.text? (Bytes.ofText (String.ofList v.chars)) =
        some (String.ofList v.chars) := Bytes.text?_eq_some_iff.2 rfl
    have hne : v.chars ≠ [] := by
      obtain ⟨c, cs, hcs, -⟩ := v.exists_chars
      rw [hcs]
      exact List.cons_ne_nil c cs
    have hrest := ih (fun v hv => h v (List.mem_cons_of_mem _ hv)) (number + 1)
    rw [List.map_cons, ofLines, htext]
    simp only [String.toList_ofList, hv.trim_chars, if_neg hne, hv.parse_chars, hrest,
      List.map_cons]

/-- A body with values on its lines is decoded as these values, whatever reads it comes in. -/
theorem Body.transcript_chars {body : Body} {vs : List Json} (h : ∀ v ∈ vs, Plain maxNested v)
    (hbody : body.content =
      (Bytes.ofText (String.ofList (vs.flatMap fun v => v.chars ++ ['\n'])), none))
    (k : OffsetKey) :
    body.transcript (.jsonl false) k = ⟨vs.map fun v => { payload := .structured v }, none⟩ := by
  have htranscript := Lines.transcript_eq { body, envelopes := false }
  have hending : Lines.ending { body, envelopes := false } = none := by
    rw [Lines.ending, hbody]
    rfl
  have htexts : (vs.flatMap fun v => v.chars ++ ['\n']) =
      (vs.map Json.chars).flatMap (· ++ ['\n']) := by
    rw [List.flatMap_map]
  have hlines : body.lines = vs.map fun v => Bytes.ofText (String.ofList v.chars) := by
    have hsingle : ∀ t ∈ vs.map Json.chars, '\n' ∉ t :=
      List.forall_mem_map.2 fun v hv => (h v hv).newline_notMem
    rw [Body.lines, hbody, htexts]
    simp only [Bytes.lines_ofText hsingle, List.map_map]
    rfl
  rw [hending, hlines] at htranscript
  exact htranscript.trans (Transcript.ofLines_chars h 1)

namespace Fixture

/-- The value on the line of a number. -/
def sample (i : Nat) : Json :=
  .object [("id", .ofNat i), ("message", .string ("record " ++ toString i))]

/-- The digits of a number need no escapes. -/
theorem flatMap_escaped_digitsOf (i : Nat) :
    (Decimal.digitsOf i).flatMap Json.escaped = Decimal.digitsOf i := by
  have hsame : ∀ c ∈ Decimal.digitsOf i, Json.escaped c = [c] := by
    intro c hc
    have hdigit := Json.isDigit_of_mem_digitsOf hc
    have hne : ∀ d : Char, d.isDigit = false → c ≠ d := by
      rintro d hd rfl
      rw [hd] at hdigit
      cases hdigit
    have hprinted : ¬ c.toNat < 0x20 := by
      simp only [Char.isDigit, Bool.and_eq_true, decide_eq_true_eq] at hdigit
      have hlow : 48 ≤ c.toNat := hdigit.1
      omega
    rw [Json.escaped, if_neg (hne '"' rfl), if_neg (hne '\\' rfl), if_neg (hne '\x08' rfl),
      if_neg (hne '\x0c' rfl), if_neg (hne '\n' rfl), if_neg (hne '\r' rfl), if_neg (hne '\t' rfl),
      if_neg hprinted]
  rw [List.flatMap_congr hsame, List.flatMap_singleton']

theorem chars_ofNat (i : Nat) : (Json.ofNat i).chars = Decimal.digitsOf i := by
  have hsign : ¬ (i : Int) < 0 := by omega
  rw [Json.ofNat, Json.ofInt, Json.chars, Number.chars, Number.intChars, if_neg hsign,
    Int.natAbs_natCast]

theorem stringChars_message (i : Nat) : Json.stringChars ("record " ++ toString i) =
    '"' :: ("record ".toList ++ Decimal.digitsOf i) ++ ['"'] := by
  have hnumber : (toString i).toList = Decimal.digitsOf i := String.toList_ofList
  have hname : "record ".toList.flatMap Json.escaped = "record ".toList := by decide
  rw [Json.stringChars, String.toList_append, hnumber, List.flatMap_append, hname,
    flatMap_escaped_digitsOf]

/-- **A line is the text of its sample.** -/
theorem line_eq (i : Nat) : line i = (sample i).chars ++ ['\n'] := by
  have hstart : "\x7b\"id\":".toList = '{' :: (Json.stringChars "id" ++ [':']) := by decide
  have hmiddle : ",\"message\":\"record ".toList =
      ',' :: (Json.stringChars "message" ++ ':' :: '"' :: "record ".toList) := by decide
  have hend : "\"\x7d\n".toList = ['"', '}', '\n'] := by decide
  have hmessage := stringChars_message i
  have hchars : ∀ message, (Json.object [("id", .ofNat i), ("message", .string message)]).chars ++
      ['\n'] = '{' :: (Json.stringChars "id" ++ ':' :: (Decimal.digitsOf i ++ ',' ::
        (Json.stringChars "message" ++ ':' :: (Json.stringChars message ++ ['}', '\n'])))) := by
    intro message
    rw [Json.Reader.object_chars_append, Json.Reader.continued_members_append, chars_ofNat,
      Json.chars]
    rfl
  unfold sample line
  rw [hchars, hstart, hmiddle, hend]
  generalize "record " ++ toString i = message at hmessage
  simp only [hmessage, List.cons_append, List.append_assoc, List.nil_append]

theorem plain_sample {i : Nat} (h : i < 2 ^ 64) : Plain maxNested (sample i) := by
  have hpow : pow2 64 = 2 ^ 64 := rfl
  have hid : Plain 126 (.ofNat i) := .int (by omega) (by omega)
  refine .object (fun m hm => ?_) ?_
  · rcases List.mem_pair.1 hm with rfl | rfl
    · exact hid
    · exact .string _
  · have hkeys : "id" < "message" := by decide
    exact List.pairwise_pair.2 hkeys

end Fixture

namespace RecordStream

open Fixture (sample)

/-- **A stream of sample lines delivers the samples**, of as many numbers as 64 bits have and
whatever reads the lines come in. From any count on it delivers the records with the numbers from
there, in order and without an error, and when it has come to its end its offset counts all lines,
or as many records as before if these were more. -/
theorem delivers_samples {σ : Type} [ObjectStore σ] {store : σ} {body : Body}
    (bucket objectKey : String) (o : Offset) {n : Nat} (hn : n ≤ 2 ^ 64)
    (hs : Serves store bucket objectKey body)
    (hbody : body.content = (Bytes.ofText (Fixture.lines n), none)) :
    let s := start (.jsonl false) bucket objectKey o
    s.Delivers store ((List.range' o.count (n - o.count)).map fun i =>
        { payload := .structured (sample i) }) none ∧
      ∀ calls, n - o.count < calls →
        (outcomes calls s store).2.1.offset = { o with count := max o.count n } := by
  intro s
  let records := (List.range n).map fun i => ({ payload := .structured (sample i) } : Record)
  have hplain : ∀ v ∈ (List.range n).map sample, Plain maxNested v := by
    intro v hv
    obtain ⟨i, hi, rfl⟩ := List.mem_map.1 hv
    have hlt := List.mem_range.1 hi
    exact Fixture.plain_sample (by omega)
  have htexts : Fixture.lines n = String.ofList
      (((List.range n).map sample).flatMap fun v => v.chars ++ ['\n']) := by
    rw [Fixture.lines, List.flatMap_map, List.flatMap_congr fun i _ => Fixture.line_eq i]
  have htranscript : body.transcript (.jsonl false) o.key = ⟨records, none⟩ := by
    rw [htexts] at hbody
    rw [Body.transcript_chars hplain hbody, List.map_map]
    rfl
  have hlength : records.length = n := by rw [List.length_map, List.length_range]
  have hdrop : records.drop o.count = (List.range' o.count (n - o.count)).map fun i =>
      { payload := .structured (sample i) } := by
    rw [← List.map_drop, List.range_eq_range', List.drop_range', Nat.zero_add, Nat.mul_one]
  have hdelivers := delivers_start (.jsonl false) o hs
  rw [htranscript] at hdelivers
  refine ⟨hdrop ▸ hdelivers, fun calls hcalls => ?_⟩
  obtain ⟨-, hlast⟩ := outcomes_start (.jsonl false) o hs calls
  have hitems : ((⟨records, none⟩ : Transcript).items o.key.objectKey o.count).length =
      n - o.count := by
    simp [Transcript.items, hlength]
  rw [htranscript, hitems, hlength] at hlast
  exact hlast hcalls

/-- A store with two sample lines, the first of which comes in two reads. -/
def samplesStore : MemoryObjects :=
  let lines := Bytes.ofText (Fixture.lines 2)
  { buckets := .ofList [("store", .ofList [
      ("c", [.data (lines.take 9), .interrupted, .data (lines.drop 9)])])] }

/-- A stream from the second line on. -/
theorem delivers_samples_resumed :
    let s := start (.jsonl false) "store" "c" { key := ⟨"store", "t", none, "c"⟩, count := 1 }
    let record := Json.object [("id", .ofNat 1), ("message", .string "record 1")]
    s.Delivers samplesStore [{ payload := .structured record }] none ∧
      (outcomes 2 s samplesStore).2.1.offset.count = 2 := by
  intro s record
  let lines := Bytes.ofText (Fixture.lines 2)
  have hserves : Serves samplesStore "store" "c"
      [.data (lines.take 9), .interrupted, .data (lines.drop 9)] := ⟨_, rfl⟩
  have hbody : Body.content [.data (lines.take 9), .interrupted, .data (lines.drop 9)] =
      (lines, none) := by
    simp [Body.content]
  obtain ⟨hdelivers, hlast⟩ := delivers_samples "store" "c"
    { key := ⟨"store", "t", none, "c"⟩, count := 1 } (by decide) hserves hbody
  refine ⟨?_, ?_⟩
  · exact hdelivers
  · have hoffset := hlast 2 (by decide)
    exact congrArg Offset.count hoffset

end RecordStream

end ObjectFeed
