import ObjectFeed.Proofs.Resumption

/-!
# Lines and reads

How an object is cut into lines does not depend on how its bytes arrive: a line, a character or a
line end may come in several reads, and reads may be interrupted. After a read that fails only the
lines that were ended before it count.

* `Bytes.text?_concat_newline`: a newline belongs to no other character.
* `Bytes.lines`, `Bytes.endedLines`: the lines of a content, and those that a newline ends.
* `Body.readLine_of_some`, `Body.readLine_of_none`: a line is read to its end, wherever the reads
  end.
* `Transcript.ofLines`: what is made of lines, one after the other.
* `Lines.transcript_eq`: **a full decode in lines is made of the lines of the content.**
* `RecordStream.delivers_lines`: **what a stream of lines delivers.**
-/

namespace ObjectFeed

namespace Bytes

/-- Bytes spell a text if they are its UTF-8 form. -/
theorem text?_eq_some_iff {b : Bytes} {s : String} : text? b = some s ↔ b = ofText s := by
  unfold text? String.fromUTF8? ofText
  constructor
  · intro h
    split at h
    · rw [← Option.some.inj h]
      rfl
    · cases h
  · rintro rfl
    have hvalid : ByteArray.IsValidUTF8 ⟨s.toUTF8.data.toList.toArray⟩ := s.isValidUTF8
    rw [dif_pos hvalid]
    exact congrArg some (String.toByteArray_inj.1 rfl)

theorem ofText_ofList (cs : List Char) :
    ofText (String.ofList cs) = cs.flatMap String.utf8EncodeChar := by
  simp only [ofText, String.toUTF8_eq_toByteArray, String.toByteArray_ofList, List.utf8Encode,
    List.toList_data_toByteArray]

/-- Only the newline has its byte in its form. -/
theorem eq_newline_of_mem {c : Char} (h : 0x0A ∈ String.utf8EncodeChar c) : c = '\n' := by
  have hbyte : ∀ n : Nat, n < 256 → 0x0A = UInt8.ofNat n → n = 10 := by
    intro n hn he
    have hvalue : 10 = n % 256 := congrArg UInt8.toNat he
    omega
  unfold String.utf8EncodeChar at h
  by_cases hascii : c.val.toNat ≤ 0x7f
  · rw [if_pos hascii, List.mem_singleton] at h
    have hval : c.val.toNat = 10 := hbyte _ (by omega) h
    exact Char.toNat_inj.1 hval
  · -- the bytes of a longer form mark its length or a continuation
    have hmark : ∀ n k m : Nat, 0 < k → k ≤ 0x40 → 0x80 ≤ m → m + k ≤ 256 →
        0x0A ≠ UInt8.ofNat (n % k + m) := by
      intro n k m hk hk' hm hm' he
      have hlt := Nat.mod_lt n hk
      have := hbyte _ (by omega) he
      omega
    rw [if_neg hascii] at h
    exfalso
    split at h
    · rw [List.mem_pair] at h
      rcases h with h | h <;> exact hmark _ _ _ (by decide) (by decide) (by decide) (by decide) h
    · split at h <;> simp only [List.mem_cons, List.not_mem_nil, or_false] at h
      · rcases h with h | h | h <;>
          exact hmark _ _ _ (by decide) (by decide) (by decide) (by decide) h
      · rcases h with h | h | h | h <;>
          exact hmark _ _ _ (by decide) (by decide) (by decide) (by decide) h

/-- **A newline belongs to no other character**: at the end of some bytes it ends the text that they
spell. -/
theorem text?_concat_newline (b : Bytes) :
    text? (b ++ [0x0A]) = (text? b).map (· ++ "\n") := by
  have happend : ∀ s : String, ofText (s ++ "\n") = ofText s ++ [0x0A] := by
    intro s
    rw [← String.ofList_toList (s := s), ← String.ofList_toList (s := "\n"), ← String.ofList_append]
    simp only [ofText_ofList, List.flatMap_append]
    rfl
  cases hb : text? b with
  | some s =>
    rw [text?_eq_some_iff] at hb
    rw [Option.map_some, text?_eq_some_iff, happend, ← hb]
  | none =>
    rw [Option.map_none]
    by_contra hne
    obtain ⟨s, hs⟩ := Option.ne_none_iff_exists'.1 hne
    rw [text?_eq_some_iff, ← String.ofList_toList (s := s), ofText_ofList] at hs
    rcases List.eq_nil_or_concat s.toList with hnil | ⟨cs, c, hcs⟩
    · rw [hnil] at hs
      exact absurd hs (by simp)
    · rw [hcs, List.concat_eq_append, List.flatMap_append, List.flatMap_singleton] at hs
      have hlast := congrArg List.getLast? hs
      rw [List.getLast?_concat, List.getLast?_append_of_ne_nil _ String.utf8EncodeChar_ne_nil]
        at hlast
      obtain rfl := eq_newline_of_mem (List.mem_of_getLast? hlast.symm)
      have hinit : b = cs.flatMap String.utf8EncodeChar := List.append_cancel_right hs
      rw [← ofText_ofList, ← text?_eq_some_iff, hb] at hinit
      cases hinit

/-- The lines that a newline ends, without it. -/
def endedLines (b : Bytes) : List Bytes := (b.splitOn 0x0A).dropLast

/-- All lines without their newlines. What follows the last newline is a line unless it is empty. -/
def lines (b : Bytes) : List Bytes :=
  b.endedLines ++ ((b.splitOn 0x0A).getLast?.filter (· ≠ [])).toList

variable {b line rest : Bytes}

theorem endedLines_cons (h : 0x0A ∉ line) (rest : Bytes) :
    (line ++ 0x0A :: rest).endedLines = line :: rest.endedLines := by
  have hne : rest.splitOn 0x0A ≠ [] := List.splitOn_ne_nil _ _
  simp only [endedLines, List.splitOn_append_cons_self_of_not_mem h, List.dropLast_cons_of_ne_nil hne]

theorem lines_cons (h : 0x0A ∉ line) (rest : Bytes) :
    (line ++ 0x0A :: rest).lines = line :: rest.lines := by
  have hne : rest.splitOn 0x0A ≠ [] := List.splitOn_ne_nil _ _
  have hlast : (line :: rest.splitOn 0x0A).getLast? = (rest.splitOn 0x0A).getLast? := by
    rw [List.getLast?_cons_of_ne_nil hne]
  simp only [lines, endedLines_cons h, List.splitOn_append_cons_self_of_not_mem h, hlast,
    List.cons_append]

theorem endedLines_of_notMem (h : 0x0A ∉ b) : b.endedLines = [] := by
  rw [endedLines, List.splitOn_eq_singleton h, List.dropLast_singleton]

theorem lines_of_notMem (h : 0x0A ∉ b) : b.lines = if b = [] then [] else [b] := by
  rw [lines, endedLines_of_notMem h, List.splitOn_eq_singleton h]
  by_cases hb : b = [] <;> simp [hb, Option.filter]

end Bytes

namespace Body

variable {body : Body} {line rest : Bytes}

theorem splitLine_of_newline (h : 0x0A ∉ line) (rest : Bytes) :
    splitLine (line ++ 0x0A :: rest) = some (line ++ [0x0A], rest) := by
  induction line with
  | nil => rfl
  | cons x line ih =>
    have hx : x ≠ 0x0A := fun he => h (he ▸ List.mem_cons_self)
    have hline : 0x0A ∉ line := fun hmem => h (List.mem_cons_of_mem x hmem)
    simp only [List.cons_append, splitLine, if_neg hx, ih hline, Option.map_some]

theorem splitLine_of_notMem {b : Bytes} (h : 0x0A ∉ b) : splitLine b = none := by
  induction b with
  | nil => rfl
  | cons x b ih =>
    have hx : x ≠ 0x0A := fun he => h (he ▸ List.mem_cons_self)
    have hb : 0x0A ∉ b := fun hmem => h (List.mem_cons_of_mem x hmem)
    simp only [splitLine, if_neg hx, ih hb, Option.map_none]

/-- The first line of some bytes is the first line of more bytes, unless it has no end yet. -/
theorem splitLine_append (b c : Bytes) :
    splitLine (b ++ c) =
      match splitLine b with
      | some (line, rest) => some (line, rest ++ c)
      | none => (splitLine c).map fun (line, rest) => (b ++ line, rest) := by
  induction b with
  | nil => cases h : splitLine c <;> simp [splitLine, h]
  | cons x b ih =>
    simp only [List.cons_append, splitLine]
    by_cases hx : x = 0x0A
    · simp only [if_pos hx]
    · simp only [if_neg hx, ih]
      cases splitLine b with
      | some p => rfl
      | none => cases splitLine c <;> rfl

/-- A line is read to its end, whatever reads it comes in. -/
theorem readLine_of_some (h : splitLine body.content.1 = some (line, rest)) :
    ∃ body', body.readLine = (.ok line, body') ∧ body'.content = (rest, body.content.2) := by
  fun_induction readLine body generalizing line with
  | case1 => cases h
  | case2 b ss l r hs =>
    rw [content, splitLine_append, hs] at h
    obtain ⟨rfl, rfl⟩ := Prod.mk.inj (Option.some.inj h)
    exact ⟨.data r :: ss, rfl, rfl⟩
  | case3 b ss hs r body' hr ih =>
    rw [content, splitLine_append, hs] at h
    obtain ⟨⟨l, r'⟩, hl, he⟩ := Option.map_eq_some_iff.1 h
    obtain ⟨rfl, rfl⟩ := Prod.mk.inj he
    obtain ⟨body'', hread, hcontent⟩ := ih hl
    rw [hr] at hread
    obtain ⟨rfl, rfl⟩ := Prod.mk.inj hread
    exact ⟨body', rfl, hcontent⟩
  | case4 ss ih => exact ih h
  | case5 m ss => cases h

/-- Without a newline the rest of the content is read, unless a read fails. -/
theorem readLine_of_none (h : splitLine body.content.1 = none) :
    ∃ body', (body.content.2 = none →
        body.readLine = (.ok body.content.1, body') ∧ body'.content = ([], none)) ∧
      ∀ m, body.content.2 = some m → body.readLine = (.error m, body') := by
  fun_induction readLine body with
  | case1 => exact ⟨[], fun _ => ⟨rfl, rfl⟩, fun m hm => by cases hm⟩
  | case2 b ss l r hs =>
    rw [content, splitLine_append, hs] at h
    cases h
  | case3 b ss hs r body' hr ih =>
    rw [content, splitLine_append, hs] at h
    obtain ⟨body'', hok, herror⟩ := ih (Option.map_eq_none_iff.1 h)
    rw [hr] at hok herror
    refine ⟨body', fun hnone => ?_, fun m hm => ?_⟩
    · obtain ⟨hread, hcontent⟩ := hok hnone
      obtain ⟨rfl, rfl⟩ := Prod.mk.inj hread
      exact ⟨rfl, hcontent⟩
    · obtain ⟨rfl, -⟩ := Prod.mk.inj (herror m hm)
      rfl
  | case4 ss ih => exact ih h
  | case5 m ss =>
    refine ⟨ss, ?_, ?_⟩
    · intro hnone
      cases hnone
    · intro m' hm
      rw [Option.some.inj hm]

/-- The lines of a body. Before a read that fails only those count that are ended. -/
def lines (body : Body) : List Bytes :=
  match body.content.2 with
  | none => body.content.1.lines
  | some _ => body.content.1.endedLines

theorem lines_cons {body' : Body} (h : 0x0A ∉ line)
    (hbody : body.content.1 = line ++ 0x0A :: rest)
    (hrest : body'.content = (rest, body.content.2)) : body.lines = line :: body'.lines := by
  unfold lines
  rw [hrest, hbody]
  cases body.content.2 with
  | none => exact Bytes.lines_cons h rest
  | some m => exact Bytes.endedLines_cons h rest

end Body

/-- A newline at the end of a text is trimmed away. -/
theorem Text.trim_concat_newline (cs : List Char) : trim (cs ++ ['\n']) = trim cs := by
  refine trim_append_of_blank (fun c hc => ?_) cs
  rw [List.mem_singleton.1 hc]
  decide

/-- What is made of lines, one after the other, until one of them is at fault. A line that is not
blank is one JSON value, and all lines are counted. -/
def Transcript.ofLines (convert : Nat → Json → Except DecodeError Record)
    (ending : Option DecodeError) : (number : Nat) → List Bytes → Transcript
  | _, [] => ⟨[], ending⟩
  | number, line :: lines =>
    match Bytes.text? line with
    | none => ⟨[], some (.readLine number invalidText)⟩
    | some s =>
      let text := Text.trim s.toList
      if text = [] then ofLines convert ending (number + 1) lines
      else
        match Json.parse text with
        | .error e => ⟨[], some (.parseLine number (String.ofList text) e)⟩
        | .ok v =>
          match convert number v with
          | .error e => ⟨[], some e⟩
          | .ok r =>
            let rest := ofLines convert ending (number + 1) lines
            { rest with records := r :: rest.records }

/-- A line of blank characters. -/
def Bytes.isBlank (line : Bytes) : Bool :=
  (text? line).any fun s => (Text.trim s.toList).isEmpty

/-- **Blank lines make no difference to the records.** Only the numbers of the lines change. -/
theorem Transcript.records_ofLines (value : Json → Except DecodeError Record)
    (ending ending' : Option DecodeError) (number number' : Nat) (lines : List Bytes) :
    (ofLines (fun _ v => value v) ending number lines).records =
      (ofLines (fun _ v => value v) ending' number'
        (lines.filter fun line => !line.isBlank)).records := by
  induction lines generalizing number number' with
  | nil => rfl
  | cons line lines ih =>
    have hblank : line.isBlank =
        (Bytes.text? line).any fun s => (Text.trim s.toList).isEmpty := rfl
    cases htext : Bytes.text? line with
    | none =>
      have hkeep : line.isBlank = false := by rw [hblank, htext, Option.any_none]
      rw [List.filter_cons_of_pos (by simp only [hkeep, Bool.not_false])]
      simp only [ofLines, htext]
    | some s =>
      by_cases hempty : Text.trim s.toList = []
      · have hdrop : line.isBlank = true := by
          rw [hblank, htext, Option.any_some, hempty, List.isEmpty_nil]
        rw [List.filter_cons_of_neg (by simp only [hdrop, Bool.not_true, Bool.false_eq_true,
          not_false_eq_true])]
        simp only [ofLines, htext, hempty, if_true]
        exact ih (number + 1) number'
      · have hkeep : line.isBlank = false := by
          rw [hblank, htext, Option.any_some, ← Bool.not_eq_true, List.isEmpty_iff]
          exact hempty
        rw [List.filter_cons_of_pos (by simp only [hkeep, Bool.not_false])]
        simp only [ofLines, htext, hempty, if_false]
        cases Json.parse (Text.trim s.toList) with
        | error e => rfl
        | ok v =>
          simp only
          cases value v with
          | error e => rfl
          | ok r => exact congrArg (r :: ·) (ih (number + 1) (number' + 1))

namespace Decoder

/-- A transcript depends on what is next alone. -/
theorem transcript_congr {d d' : Decoder} (h : d.next = d'.next) : d.transcript = d'.transcript := by
  obtain ⟨⟨r, d''⟩, hd⟩ : ∃ out, d.next = out := ⟨_, rfl⟩
  have hd' := h.symm.trans hd
  rcases r with e | _ | r
  · rw [transcript_failed hd, transcript_failed hd']
  · rw [transcript_ended hd, transcript_ended hd']
  · rw [transcript_record hd, transcript_record hd']

end Decoder

namespace Lines

/-- A newline at the end of a line does not count. -/
theorem readRecord_concat_newline (envelopes : Bool) (number : Nat) (line : Bytes) :
    readRecord envelopes number (line ++ [0x0A]) = readRecord envelopes number line := by
  unfold readRecord
  rw [Bytes.text?_concat_newline]
  cases Bytes.text? line with
  | none => rfl
  | some s =>
    have htrim : Text.trim (s ++ "\n").toList = Text.trim s.toList := by
      rw [String.toList_append]
      exact Text.trim_concat_newline _
    simp only [Option.map_some, htrim]

/-- The lines that are read are made into records as `Transcript.ofLines` says. -/
theorem ofLines_cons (envelopes : Bool) (ending : Option DecodeError) (number : Nat) (line : Bytes)
    (lines : List Bytes) :
    Transcript.ofLines (convert envelopes) ending number (line :: lines) =
      match readRecord envelopes number line with
      | .error e => ⟨[], some e⟩
      | .ok none => Transcript.ofLines (convert envelopes) ending (number + 1) lines
      | .ok (some r) =>
        let rest := Transcript.ofLines (convert envelopes) ending (number + 1) lines
        { rest with records := r :: rest.records } := by
  rw [Transcript.ofLines]
  generalize Transcript.ofLines (convert envelopes) ending (number + 1) lines = rest
  unfold readRecord
  cases Bytes.text? line with
  | none => rfl
  | some s =>
    by_cases hblank : Text.trim s.toList = []
    · simp only [hblank, List.isEmpty_nil, if_true]
    · simp only [hblank, if_false, List.isEmpty_iff, parseLine]
      cases Json.parse (Text.trim s.toList) with
      | error e => rfl
      | ok v =>
        simp only
        cases convert envelopes number v <;> rfl

variable {d : Lines} {line : Bytes} {rest : Body}

/-- The record after a line that is read is that of the line, or the next one if it is blank. -/
theorem next_of_line (hne : line ≠ []) (h : d.body.readLine = (.ok line, rest)) :
    d.next =
      match readRecord d.envelopes (d.number + 1) line with
      | .error e => (.error e, { d with body := rest, number := d.number + 1 })
      | .ok (some r) => (.ok (some r), { d with body := rest, number := d.number + 1 })
      | .ok none => Lines.next { d with body := rest, number := d.number + 1 } := by
  obtain ⟨x, line, rfl⟩ := List.exists_cons_of_ne_nil hne
  rw [next]
  split
  · rename_i m body' hline
    rw [h] at hline
    cases hline
  · rename_i body' hline
    rw [h] at hline
    cases hline
  · rename_i y line' body' hline
    rw [h] at hline
    obtain ⟨hok, rfl⟩ := Prod.mk.inj hline
    obtain ⟨rfl, rfl⟩ := List.cons.inj (Except.ok.inj hok)
    rcases hread : readRecord d.envelopes (d.number + 1) (x :: line) with e | _ | r <;>
      simp only [hread]

theorem transcript_of_line (hne : line ≠ []) (h : d.body.readLine = (.ok line, rest)) :
    (Decoder.lines d).transcript =
      match readRecord d.envelopes (d.number + 1) line with
      | .error e => ⟨[], some e⟩
      | .ok none => (Decoder.lines { d with body := rest, number := d.number + 1 }).transcript
      | .ok (some r) =>
        let t := (Decoder.lines { d with body := rest, number := d.number + 1 }).transcript
        { t with records := r :: t.records } := by
  have hnext := next_of_line hne h
  rcases hread : readRecord d.envelopes (d.number + 1) line with e | _ | r
  · rw [hread] at hnext
    have hdecoder : (Decoder.lines d).next =
        (.error e, .lines { d with body := rest, number := d.number + 1 }) := by
      simp only [Decoder.next, hnext]
    exact Decoder.transcript_failed hdecoder
  · rw [hread] at hnext
    refine Decoder.transcript_congr ?_
    simp only [Decoder.next, hnext]
  · rw [hread] at hnext
    refine Decoder.transcript_record ?_
    simp only [Decoder.next, hnext]

theorem transcript_of_end (h : d.body.readLine = (.ok [], rest)) :
    (Decoder.lines d).transcript = ⟨[], none⟩ := by
  have hnext : (Decoder.lines d).next = (.ok none, .lines { d with body := rest }) := by
    simp only [Decoder.next]
    rw [next]
    split <;> simp_all
  exact Decoder.transcript_ended hnext

theorem transcript_of_failure {m : String} (h : d.body.readLine = (.error m, rest)) :
    (Decoder.lines d).transcript = ⟨[], some (.readLine (d.number + 1) m)⟩ := by
  have hnext : (Decoder.lines d).next =
      (.error (.readLine (d.number + 1) m), .lines { d with body := rest }) := by
    simp only [Decoder.next]
    rw [next]
    split <;> simp_all
  exact Decoder.transcript_failed hnext

/-- How the lines of a body end: a failing read fails the line that it belongs to. -/
def ending (d : Lines) : Option DecodeError :=
  d.body.content.2.map (.readLine (d.number + d.body.lines.length + 1))

/-- **A full decode in lines is made of the lines of the content**, wherever the reads end. -/
theorem transcript_eq (d : Lines) :
    (Decoder.lines d).transcript =
      Transcript.ofLines (convert d.envelopes) d.ending (d.number + 1) d.body.lines := by
  -- each line leaves less of the content
  induction hlength : d.body.content.1.length using Nat.strongRecOn generalizing d with
  | _ length ih =>
  by_cases hnewline : 0x0A ∈ d.body.content.1
  · obtain ⟨line, rest, hcontent, hline⟩ := List.eq_append_cons_of_mem hnewline
    have hsplit := Body.splitLine_of_newline hline rest
    rw [← hcontent] at hsplit
    obtain ⟨body, hread, hrest⟩ := Body.readLine_of_some hsplit
    have hlines := Body.lines_cons hline hcontent hrest
    have hshort : body.content.1.length < length := by
      rw [← hlength, hcontent, hrest]
      simp only [List.length_append, List.length_cons]
      omega
    have hending : ending { d with body, number := d.number + 1 } = d.ending := by
      have hnumber : d.number + 1 + body.lines.length = d.number + (body.lines.length + 1) := by
        omega
      simp only [ending, hlines, hrest, List.length_cons, hnumber]
    have hlater := ih _ hshort { d with body, number := d.number + 1 } rfl
    rw [hending] at hlater
    rw [transcript_of_line (by simp) hread, readRecord_concat_newline, hlines, ofLines_cons, hlater]
  · obtain ⟨body, hok, herror⟩ := Body.readLine_of_none (Body.splitLine_of_notMem hnewline)
    cases hfailure : d.body.content.2 with
    | some m =>
      have hlines : d.body.lines = [] := by
        simp only [Body.lines, hfailure]
        exact Bytes.endedLines_of_notMem hnewline
      rw [transcript_of_failure (herror m hfailure), ending, hlines, hfailure]
      rfl
    | none =>
      obtain ⟨hread, hrest⟩ := hok hfailure
      have hlines : d.body.lines = d.body.content.1.lines := by
        simp only [Body.lines, hfailure]
      have hending : d.ending = none := by
        rw [ending, hfailure]
        rfl
      rw [hlines, Bytes.lines_of_notMem hnewline, hending]
      by_cases hempty : d.body.content.1 = []
      · rw [hempty] at hread
        rw [transcript_of_end hread, if_pos hempty]
        rfl
      · -- the last line has no newline
        have hend : (Decoder.lines { d with body, number := d.number + 1 }).transcript =
            ⟨[], none⟩ := by
          have hnone : Body.splitLine body.content.1 = none := by
            rw [hrest]
            rfl
          obtain ⟨body', hok', -⟩ := Body.readLine_of_none hnone
          rw [hrest] at hok'
          exact transcript_of_end (hok' rfl).1
        rw [if_neg hempty, transcript_of_line hempty hread, ofLines_cons, hend]
        rfl

end Lines

namespace RecordStream

variable {σ : Type} [ObjectStore σ] {store : σ} {body : Body}

/-- **What a stream of lines delivers** depends on the content of the body alone, whatever reads the
content comes in. The lines of the content are taken in order: one without a text or a value ends
the stream with an error that names it, and each other line is a record unless it is blank. A read
that fails ends the stream in the same way after the lines that were ended before it. At the end the
offset counts the records, and blank lines change neither the records nor their count. -/
theorem delivers_lines (bucket objectKey : String) (o : Offset)
    (hs : Serves store bucket objectKey body) :
    let s := start (.jsonl false) bucket objectKey { o with count := 0 }
    let b := body.content.1
    let made := Transcript.ofLines fun _ v => .ok { payload := .structured v }
    (body.content.2 = none →
      let t := made none 1 b.lines
      s.Delivers store t.records t.failure ∧
        t.records = (made none 1 (b.lines.filter fun line => !line.isBlank)).records ∧
        ∀ n, none ∈ (outcomes n s store).1 →
          (outcomes n s store).2.1.offset.count = t.records.length) ∧
    ∀ m, body.content.2 = some m →
      let t := made (some (.readLine (b.endedLines.length + 1) m)) 1 b.endedLines
      s.Delivers store t.records t.failure ∧
        t.records = (made none 1 (b.endedLines.filter fun line => !line.isBlank)).records ∧
        ∀ n, none ∈ (outcomes n s store).1 →
          (outcomes n s store).2.1.offset.count = t.records.length := by
  intro s b made
  have htranscript : body.transcript (.jsonl false) o.key =
      made (body.content.2.map (.readLine (body.lines.length + 1))) 1 body.lines := by
    have hlines := Lines.transcript_eq { body, envelopes := false }
    rw [Lines.ending, Nat.zero_add] at hlines
    exact hlines
  have hdelivers := delivers_start (.jsonl false) { o with count := 0 } hs
  have hcount : ∀ n, none ∈ (outcomes n s store).1 →
      (outcomes n s store).2.1.offset.count =
        (body.transcript (.jsonl false) o.key).records.length := by
    intro n hn
    rw [offset_at_end (.jsonl false) { o with count := 0 } hs hn]
    simp only [Nat.zero_max]
  simp only [List.drop_zero, htranscript] at hdelivers hcount
  refine ⟨fun hnone => ?_, fun m hm => ?_⟩
  · have hlines : body.lines = b.lines := by simp only [Body.lines, hnone, b]
    rw [hnone, hlines] at hdelivers hcount
    exact ⟨hdelivers, Transcript.records_ofLines _ _ _ _ _ _, hcount⟩
  · have hlines : body.lines = b.endedLines := by simp only [Body.lines, hm, b]
    rw [hm, hlines] at hdelivers hcount
    exact ⟨hdelivers, Transcript.records_ofLines _ _ _ _ _ _, hcount⟩

/-- A store with objects of lines that come in ragged reads: `1`, a blank line, `2` and an end in
the first, `1` and the start of a line before a failure in the second. -/
def linedStore : MemoryObjects :=
  { buckets := .ofList [("store", .ofList [
      ("c", [.data [0x31], .interrupted, .data [0x0D, 0x0A, 0x20], .data [0x0A, 0x32]]),
      ("d", [.data [0x31, 0x0A, 0x32], .failed "reset"])])] }

theorem delivers_lines_sample :
    let s objectKey := start (.jsonl false) "store" objectKey { key := ⟨"store", "t", none, objectKey⟩ }
    let made := Transcript.ofLines fun _ v => .ok { payload := .structured v }
    (s "c").Delivers linedStore (made none 1 [[0x31, 0x0D], [0x20], [0x32]]).records none ∧
      (outcomes 3 (s "c") linedStore).2.1.offset.count = 2 ∧
      (s "d").Delivers linedStore (made none 1 [[0x31]]).records (some (.readLine 2 "reset")) := by
  intro s made
  have hwhole : Serves linedStore "store" "c"
      [.data [0x31], .interrupted, .data [0x0D, 0x0A, 0x20], .data [0x0A, 0x32]] := ⟨_, rfl⟩
  have hfailing : Serves linedStore "store" "d" [.data [0x31, 0x0A, 0x32], .failed "reset"] :=
    ⟨_, rfl⟩
  obtain ⟨hall, -⟩ := delivers_lines "store" "c" { key := ⟨"store", "t", none, "c"⟩ } hwhole
  obtain ⟨-, hended⟩ := delivers_lines "store" "d" { key := ⟨"store", "t", none, "d"⟩ } hfailing
  obtain ⟨hdelivers, -, hcount⟩ := hall rfl
  have hnone : none ∈ (outcomes 3 (s "c") linedStore).1 := by
    rw [hdelivers 3]
    exact Feed.none_mem_served_iff.2 (by decide +kernel)
  exact ⟨hdelivers, hcount 3 hnone, (hended "reset" rfl).1⟩

end RecordStream

end ObjectFeed
