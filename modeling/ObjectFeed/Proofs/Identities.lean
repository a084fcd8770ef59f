import ObjectFeed.Fixture.Table
import ObjectFeed.Proofs.Resumption

/-!
# What the identity of an object changes

A decoder gets the bytes of an object and the identity of its progress. Only the local copy of a
columnar file has a use for the identity: its name starts with the destination of the records. So
two identities make a difference just if a copy can be created with one of the names and not with
the other, which does not happen among destinations that are names of files, or if no copy can be
created or written, since that failure names it.

* `Scratch.canCreate_of_isFileName`: a name of a file is as good as any other.
* `Decoder.transcript_rows`: the name of a copy makes no difference to its rows.
* `DecodeError.Alike`: failures that are the same but for the paths of two copies.
* `Body.transcript_congr_key`: a full decode depends on the identity by these two things alone.
* `RecordStream.delivers_alike`: **streams over one body from one count deliver the same, as far as
  the copies of both can be created.**
* `RecordStream.delivers_apart`: **a readable file is refused because of its destination.**
-/

namespace ObjectFeed

namespace Directories

/-- A text without separators is one name. -/
theorem names_of_notMem {cs : List Char} (h : '/' ∉ cs) : names cs = [String.ofList cs] := by
  induction cs with
  | nil => rfl
  | cons c cs ih =>
    have hc : c ≠ '/' := fun he => h (he ▸ List.mem_cons_self)
    have hcs : '/' ∉ cs := fun hmem => h (List.mem_cons_of_mem c hmem)
    have hjoin : String.singleton c ++ String.ofList cs = String.ofList (c :: cs) := by
      rw [String.singleton_eq_ofList, ← String.ofList_append, List.singleton_append]
    simp only [names, if_neg hc, ih hcs, hjoin]

end Directories

/-- The destination can be the start of a file's name, of a length that such names may have. -/
structure OffsetKey.IsFileName (k : OffsetKey) : Prop where
  separator : '/' ∉ k.topic.toList
  null : '\x00' ∉ k.topic.toList
  length : (Scratch.fileName (Decoder.copyStart k) Scratch.sampleRandom).utf8ByteSize ≤
    Directories.maxName

namespace Scratch

variable {k : OffsetKey}

/-- What is added to a topic has neither separators nor nulls. -/
theorem mem_fileName {c : Char} (h : c ∈ (fileName (Decoder.copyStart k) sampleRandom).toList) :
    c ∈ k.topic.toList ∨ c ≠ '/' ∧ c ≠ '\x00' := by
  have hplain (s : String) (hs : s.toList.all (fun c => c != '/' && c != '\x00') = true) :
      ∀ c ∈ s.toList, c ≠ '/' ∧ c ≠ '\x00' :=
    fun c hc => by simpa using List.all_eq_true.1 hs c hc
  obtain ⟨partition, hstart, hpartition⟩ : ∃ partition : String,
      Decoder.copyStart k = k.topic ++ "_" ++ partition ++ "_" ∧
        ∀ c ∈ partition.toList, c ≠ '/' ∧ c ≠ '\x00' := by
    cases hk : k.partition with
    | none => exact ⟨"null", by simp only [Decoder.copyStart, hk], hplain "null" (by decide)⟩
    | some p =>
      refine ⟨toString p, by simp only [Decoder.copyStart, hk], fun c hc => ?_⟩
      have hdigit : c.isDigit = true := by
        have hdigits : (toString p).toList = Nat.toDigits 10 p.toNat := by
          show (Nat.repr p.toNat).toList = _
          rw [Nat.repr_eq_ofList_toDigits, String.toList_ofList]
        rw [hdigits] at hc
        exact Nat.isDigit_of_mem_toDigits (by decide) (by decide) hc
      constructor <;> (rintro rfl; revert hdigit; decide)
  simp only [fileName, hstart, String.toList_append, List.mem_append] at h
  rcases h with ((((htopic | hc) | hc) | hc) | hc) | hc
  · exact .inl htopic
  · exact .inr (hplain "_" (by decide) c hc)
  · exact .inr (hpartition c hc)
  · exact .inr (hplain "_" (by decide) c hc)
  · exact .inr (hplain sampleRandom (by decide) c hc)
  · exact .inr (hplain ".parquet" (by decide) c hc)

/-- **A copy with a name of a file can be created just if its directory exists**, whatever the name.
-/
theorem canCreate_of_isFileName (h : k.IsFileName) (s : Scratch) :
    s.canCreate (Decoder.copyStart k) =
      (s.directories.find? (s.directory.getD s.directories.default)).isSome := by
  obtain ⟨file, hfile⟩ : ∃ file, fileName (Decoder.copyStart k) sampleRandom = file := ⟨_, rfl⟩
  have hseparator : '/' ∉ file.toList := by
    intro hmem
    rcases mem_fileName (hfile ▸ hmem) with htopic | ⟨hne, -⟩
    · exact h.separator htopic
    · exact hne rfl
  have hnull : '\x00' ∉ file.toList := by
    intro hmem
    rcases mem_fileName (hfile ▸ hmem) with htopic | ⟨-, hne⟩
    · exact h.null htopic
    · exact hne rfl
  have hnames : Directories.names file.toList = [file] := by
    rw [Directories.names_of_notMem hseparator, String.ofList_toList]
  have habsolute : Directories.isAbsolute file = false := by
    rw [Directories.isAbsolute, ← Bool.not_eq_true, beq_iff_eq]
    exact fun hhead => hseparator (List.mem_of_head? hhead)
  have hpath : Directories.isPath file = true := by
    have hlength : file.utf8ByteSize ≤ Directories.maxName := hfile ▸ h.length
    simp [Directories.isPath, hnames, hnull, hlength]
  simp only [canCreate, hfile, habsolute, hpath, hnames, Bool.false_eq_true, if_false,
    Bool.true_and, List.dropLast_singleton, Directories.walk, Option.bind_fun_some]

end Scratch

/-- The name of a copy makes no difference to its rows. -/
theorem Decoder.transcript_rows (copy copy' : String) (d : Parquet.Rows) :
    (Decoder.rows copy d).transcript = (Decoder.rows copy' d).transcript := by
  -- each row leaves less to be read
  induction hrank : d.rank using Nat.strongRecOn generalizing d with
  | _ rank ih =>
  obtain ⟨⟨r, d'⟩, hd⟩ : ∃ out, d.next = out := ⟨_, rfl⟩
  have hnext : ∀ copy, (Decoder.rows copy d).next = (r, .rows copy d') := by
    intro copy
    simp only [Decoder.next, hd]
  rcases r with e | _ | r
  · rw [transcript_failed (hnext copy), transcript_failed (hnext copy')]
  · rw [transcript_ended (hnext copy), transcript_ended (hnext copy')]
  · have hless : d'.rank < rank := hrank ▸ Parquet.Rows.rank_next hd
    rw [transcript_record (hnext copy), transcript_record (hnext copy'), ih _ hless d' rfl]

/-- Two endings with the two identities are the same, or neither copy could be created or written
and each ending names its own. -/
inductive DecodeError.Alike (settings : DecoderSettings) (body : Body) (k k' : OffsetKey) :
    (ending ending' : Option DecodeError) → Prop
  | same (ending : Option DecodeError) : Alike settings body k k' ending ending
  | uncreated {scratch : Scratch} (hsettings : settings = .parquet scratch)
      (hk : scratch.canCreate (Decoder.copyStart k) = false)
      (hk' : scratch.canCreate (Decoder.copyStart k') = false) :
      Alike settings body k k'
        (some (.createCopy scratch.directory (scratch.path (Decoder.copyStart k))))
        (some (.createCopy scratch.directory (scratch.path (Decoder.copyStart k'))))
  | unwritten {scratch : Scratch} {cause : String} (hsettings : settings = .parquet scratch)
      (hread : body.readAll = .error cause) :
      Alike settings body k k' (some (.writeCopy (scratch.path (Decoder.copyStart k)) cause))
        (some (.writeCopy (scratch.path (Decoder.copyStart k')) cause))

namespace Body

variable {settings : DecoderSettings} {k k' : OffsetKey}

/-- Without a copy nothing is decoded. -/
theorem transcript_of_uncreated {scratch : Scratch}
    (h : scratch.canCreate (Decoder.copyStart k) = false) (body : Body) :
    body.transcript (.parquet scratch) k =
      ⟨[], some (.createCopy scratch.directory (scratch.path (Decoder.copyStart k)))⟩ := by
  simp only [transcript, Decoder.open, Decoder.ofCopy, h, Bool.not_false, if_true]

/-- A copy that cannot be written is named by the failure. -/
theorem transcript_of_unwritten {scratch : Scratch}
    (hcreated : scratch.canCreate (Decoder.copyStart k) = true) {body : Body} {cause : String}
    (hread : body.readAll = .error cause) : body.transcript (.parquet scratch) k =
      ⟨[], some (.writeCopy (scratch.path (Decoder.copyStart k)) cause)⟩ := by
  simp only [transcript, Decoder.open, Decoder.ofCopy, hcreated, hread, Bool.not_true,
    Bool.false_eq_true, if_false]

/-- **A full decode depends on the identity only by whether a copy can be created**, and by the path
of a copy that cannot be created or written. -/
theorem transcript_congr_key
    (h : ∀ scratch, settings = .parquet scratch →
      scratch.canCreate (Decoder.copyStart k) = scratch.canCreate (Decoder.copyStart k'))
    (body : Body) : (body.transcript settings k).records = (body.transcript settings k').records ∧
      DecodeError.Alike settings body k k' (body.transcript settings k).failure
        (body.transcript settings k').failure := by
  -- most of the time the transcripts are the same
  have hsame : body.transcript settings k = body.transcript settings k' →
      (body.transcript settings k).records = (body.transcript settings k').records ∧
        DecodeError.Alike settings body k k' (body.transcript settings k).failure
          (body.transcript settings k').failure := by
    intro htranscript
    rw [htranscript]
    exact ⟨rfl, .same _⟩
  cases settings with
  | bytes => exact hsame rfl
  | jsonl => exact hsame rfl
  | avro => exact hsame rfl
  | parquet scratch =>
    have hcreate := h scratch rfl
    cases hk : scratch.canCreate (Decoder.copyStart k) with
    | false =>
      have hk' : scratch.canCreate (Decoder.copyStart k') = false := hcreate ▸ hk
      rw [transcript_of_uncreated hk, transcript_of_uncreated hk']
      exact ⟨rfl, .uncreated rfl hk hk'⟩
    | true =>
      have hk' : scratch.canCreate (Decoder.copyStart k') = true := hcreate ▸ hk
      cases hread : body.readAll with
      | error cause =>
        rw [transcript_of_unwritten hk hread, transcript_of_unwritten hk' hread]
        exact ⟨rfl, .unwritten rfl hread⟩
      | ok file =>
        refine hsame ?_
        simp only [transcript, Decoder.open, Decoder.ofCopy, hk, hk', hread, Bool.not_true,
          Bool.false_eq_true, if_false]
        cases Parquet.Rows.ofFile file with
        | error e => rfl
        | ok d => exact Decoder.transcript_rows _ _ d

end Body

namespace RecordStream

variable {σ : Type} [ObjectStore σ] {store store' : σ} {body : Body} {settings : DecoderSettings}
  {o o' : Offset} {bucket bucket' objectKey objectKey' : String}

/-- **Streams over one body from one count deliver the same** for all offsets, unless the format is
columnar and a copy can be created for one of the destinations but not for the other; a failure to
create or write it names the copy. All destinations that are names of files have copies if one of
them has. A stream without a copy delivers nothing but the error that says so. -/
theorem delivers_alike (hcount : o.count = o'.count) (hs : Serves store bucket objectKey body)
    (hs' : Serves store' bucket' objectKey' body) :
    let s := start settings bucket objectKey o
    let s' := start settings bucket' objectKey' o'
    let created (scratch : Scratch) (o : Offset) :=
      scratch.canCreate (Decoder.copyStart o.key)
    ((∀ scratch, settings = .parquet scratch → created scratch o = created scratch o') →
      ∃ records ending ending', s.Delivers store records ending ∧
        s'.Delivers store' records ending' ∧
        DecodeError.Alike settings body o.key o'.key ending ending') ∧
    (o.key.IsFileName → o'.key.IsFileName → ∀ scratch, created scratch o = created scratch o') ∧
    ∀ scratch, settings = .parquet scratch → created scratch o = false →
      s.Delivers store []
        (some (.createCopy scratch.directory (scratch.path (Decoder.copyStart o.key)))) := by
  intro s s' created
  have hdelivers := delivers_start settings o hs
  have hdelivers' := delivers_start settings o' hs'
  refine ⟨fun hcreated => ?_, fun hname hname' scratch => ?_, fun scratch hsettings hcreated => ?_⟩
  · obtain ⟨hrecords, hending⟩ := Body.transcript_congr_key hcreated body
    rw [← hcount, ← hrecords] at hdelivers'
    exact ⟨_, _, _, hdelivers, hdelivers', hending⟩
  · exact (Scratch.canCreate_of_isFileName hname scratch).trans
      (Scratch.canCreate_of_isFileName hname' scratch).symm
  · subst hsettings
    rw [Body.transcript_of_uncreated hcreated, List.drop_nil] at hdelivers
    exact hdelivers

/-- A store with a columnar file of one row. -/
def tableStore : MemoryObjects :=
  { buckets := .ofList [("store", .ofList
      [("c", .ofBytes (Fixture.table (Fixture.Reading.samples 1)))])] }

/-- Copies are made in a directory without others in it. -/
def tableScratch : Scratch :=
  { directory := some "/tmp"
    directories := { known := [["tmp"]], working := [], default := "/tmp" } }

/-- A stream on the file, whose records go to a topic. -/
def tableStream (topic : String) : RecordStream :=
  start (.parquet tableScratch) "store" "c" { key := ⟨"store", topic, some 0, "c"⟩ }

theorem serves_tableStore :
    Serves tableStore "store" "c" (.ofBytes (Fixture.table (Fixture.Reading.samples 1))) := ⟨_, rfl⟩

theorem delivers_alike_sample :
    ∃ records ending, (tableStream "t").Delivers tableStore records ending ∧
      (tableStream "..").Delivers tableStore records ending := by
  obtain ⟨halike, hnames, -⟩ := @delivers_alike _ _ _ _ _ (.parquet tableScratch)
    { key := ⟨"store", "t", some 0, "c"⟩ } { key := ⟨"store", "..", some 0, "c"⟩ } _ _ _ _ rfl
    serves_tableStore serves_tableStore
  obtain ⟨records, ending, ending', hrecords, hrecords', hending⟩ :=
    halike fun scratch _ => hnames ⟨by decide, by decide, by decide +kernel⟩
      ⟨by decide, by decide, by decide +kernel⟩ scratch
  cases hending with
  | same => exact ⟨records, ending, hrecords, hrecords'⟩
  | uncreated hsettings hk =>
    cases hsettings
    exact absurd hk (by decide +kernel)
  | unwritten _ hread => cases hread

/-- The path of a copy has the destination in it. -/
example :
    tableScratch.path (Decoder.copyStart ⟨"store", "t", some 0, "c"⟩) = "/tmp/t_0_*.parquet" := by
  decide

/-- The file can be read and has one row. -/
def hasOneRow (file : Bytes) : Bool :=
  match Parquet.Rows.ofFile file with
  | .ok ⟨_, [.ok [_]], []⟩ => true
  | _ => false

/-- A file of one row is decoded to its row, with a destination for which a copy can be created. -/
theorem transcript_of_hasOneRow {file : Bytes} (h : hasOneRow file = true) {scratch : Scratch}
    {k : OffsetKey} (hcreated : scratch.canCreate (Decoder.copyStart k) = true) :
    ∃ r, Body.transcript (.parquet scratch) k (.ofBytes file) = ⟨[r], none⟩ := by
  have hread : (Body.ofBytes file).readAll = .ok file := by
    simp only [Body.ofBytes, Body.readAll, Body.content, List.append_nil]
  unfold hasOneRow at h
  split at h
  · rename_i description v hopen
    have hrow : (Decoder.rows (Decoder.copyStart k) ⟨description, [.ok [v]], []⟩).next =
        (.ok (some ⟨some description, .structured v⟩),
          .rows (Decoder.copyStart k) ⟨description, [], []⟩) := rfl
    have hend : (Decoder.rows (Decoder.copyStart k) ⟨description, [], []⟩).next =
        (.ok none, .rows (Decoder.copyStart k) ⟨description, [], []⟩) := rfl
    refine ⟨⟨some description, .structured v⟩, ?_⟩
    simp only [Body.transcript, Decoder.open, Decoder.ofCopy, hcreated, Bool.not_true,
      Bool.false_eq_true, if_false, hread, hopen, Except.map]
    rw [Decoder.transcript_record hrow, Decoder.transcript_ended hend]
  · cases h

/-- **A file that can be read is refused because of its destination.** A topic with a separator
leads the copy into a directory that does not exist. -/
theorem delivers_apart :
    (∃ r, (tableStream "t").Delivers tableStore [r] none) ∧
      (tableStream "a/b").Delivers tableStore []
        (some (.createCopy (some "/tmp") "/tmp/a/b_0_*.parquet")) ∧
      ¬ ∃ records ending, (tableStream "t").Delivers tableStore records ending ∧
        (tableStream "a/b").Delivers tableStore records ending := by
  obtain ⟨r, hr⟩ : ∃ r, Body.transcript (.parquet tableScratch) ⟨"store", "t", some 0, "c"⟩
      (.ofBytes (Fixture.table (Fixture.Reading.samples 1))) = ⟨[r], none⟩ :=
    transcript_of_hasOneRow (by decide +kernel) (by decide +kernel)
  have hread := delivers_start (.parquet tableScratch)
    { key := ⟨"store", "t", some 0, "c"⟩ } serves_tableStore
  rw [hr, List.drop_zero] at hread
  have hrefused := delivers_start (.parquet tableScratch)
    { key := ⟨"store", "a/b", some 0, "c"⟩ } serves_tableStore
  have hpath : tableScratch.path (Decoder.copyStart ⟨"store", "a/b", some 0, "c"⟩) =
      "/tmp/a/b_0_*.parquet" := by
    decide
  rw [Body.transcript_of_uncreated (by decide +kernel), List.drop_nil, hpath] at hrefused
  refine ⟨⟨r, hread⟩, hrefused, ?_⟩
  rintro ⟨records, ending, hboth, hboth'⟩
  obtain ⟨-, rfl⟩ := hboth.unique hread
  obtain ⟨-, hne⟩ := hboth'.unique hrefused
  cases hne

end RecordStream

end ObjectFeed
