import ObjectFeed.Config.Json
import ObjectFeed.Proofs.Skipping

/-!
# Settings survive their JSON form

A record is read from an object member by member: a known member sets its field, and any other is
passed over. The state after some members depends only on which names have been seen, so the order
of the members does not matter.

* `Json.Varies`: other objects with the members of one.
* `Json.Reader.Fits`: the fields of a type read the members of its JSON form;
  `Fits.reads_named` and `Fits.reads_varied` say that the whole object is read then.
* `DecoderConfig.keeping`, `FeedConfig.keeping`, `FeedConfig.without`: settings with some defaults.
* `DecoderConfig.fits`, `FeedConfig.fits`: what each field reads.
* `FeedConfig.ofJson_json`: **settings survive their JSON form**, and settings that are left out
  have their defaults.
-/

namespace ObjectFeed

namespace Json

/-- Some members of an object in any order, without those dropped and with others of further names.
-/
def Varies (dropped : List String) (full ms : List (String × Json)) : Prop :=
  (ms.filter fun m => m.1 ∈ full.map (·.1)).Perm (full.filter fun m => m.1 ∉ dropped)

namespace Reader

/-- The members of an object, from its start or after some of them. -/
def listed (first : Bool) (ms : List (String × Json)) : List Char :=
  if first then joined (memberChars ms) else continued (memberChars ms)

theorem reads_hasKey_listed (first : Bool) (k : String) (x : Json) (ms : List (String × Json))
    (s : List Char) :
    Reads (hasKey first) (listed first ((k, x) :: ms) ++ s) true
      (stringChars k ++ ':' :: (x.chars ++ (continued (memberChars ms) ++ s))) := by
  cases first with
  | false =>
    rw [listed, if_neg (by simp), continued_members_append, stringChars_append]
    exact reads_hasKey_next _
  | true =>
    have hjoined : joined (memberChars ((k, x) :: ms)) ++ s =
        stringChars k ++ ':' :: (x.chars ++ (continued (memberChars ms) ++ s)) := by
      simp [memberChars, joined_cons]
    rw [listed, if_pos rfl, hjoined, stringChars_append]
    exact reads_hasKey_first _

theorem length_listed (first : Bool) (k : String) (x : Json) (ms : List (String × Json))
    (s : List Char) :
    (stringChars k).length + 1 + (x.chars ++ (continued (memberChars ms) ++ s)).length ≤
      (listed first ((k, x) :: ms) ++ s).length := by
  cases first <;> simp [listed, memberChars, joined_cons, continued] <;> omega

section Named

variable {σ : Type} {limit rounds : Nat} {fs : List (Member σ)} {f : Member σ} {first : Bool}
  {seen : List String} {s s' s'' : σ} {text rest after : List Char} {k : String} {x : Json}

/-- A known member sets its field, and the others follow. -/
theorem reads_named_known
    (hkey : Reads (hasKey first) text true (stringChars k ++ ':' :: (x.chars ++ rest)))
    (hlimit : k.toList.length ≤ limit) (hfind : fs.find? (·.name == k) = some f) (hseen : k ∉ seen)
    (hset : Reads (f.set s) (x.chars ++ rest) s' rest)
    (hrest : Reads (named limit fs rounds false (k :: seen) s') rest s'' after) :
    Reads (named limit fs (rounds + 1) first seen s) text s'' after := by
  rw [stringChars_append] at hkey
  refine hkey.bind ((reads_skip '"' _).bind ((reads_string hlimit _).bind ?_))
  simp only [hfind, if_neg hseen]
  exact (reads_colon _).bind (hset.bind hrest)

/-- An unknown member is passed over, and the others follow. -/
theorem reads_named_unknown
    (hkey : Reads (hasKey first) text true (stringChars k ++ ':' :: (x.chars ++ rest)))
    (hlimit : k.toList.length ≤ limit) (hfind : fs.find? (·.name == k) = none) (hends : Ends rest)
    (hvalue : (x.chars ++ rest).length ≤ limit)
    (hrest : Reads (named limit fs rounds false seen s) rest s' after) :
    Reads (named limit fs (rounds + 1) first seen s) text s' after := by
  rw [stringChars_append] at hkey
  refine hkey.bind ((reads_skip '"' _).bind ((reads_string hlimit _).bind ?_))
  simp only [hfind]
  exact (reads_colon _).bind ((reads_skipValue x hends hvalue).bind hrest)

end Named

/-- The names that fields know, in the order of an object. -/
def knownNames (full ms : List (String × Json)) : List String :=
  (ms.filter fun m => m.1 ∈ full.map (·.1)).map (·.1)

/-- The fields of a type read the members of an object: each brings the state from the names seen
before to those with its own. -/
structure Fits {σ : Type} (limit : Nat) (fs : List (Member σ)) (full : List (String × Json))
    (state : List String → σ) : Prop where
  known : ∀ m ∈ full, ∃ f, fs.find? (·.name == m.1) = some f ∧ ∀ seen rest, Ends rest →
    (m.2.chars ++ rest).length ≤ limit →
    Reads (f.set (state seen)) (m.2.chars ++ rest) (state (m.1 :: seen)) rest
  names : fs.map (·.name) = full.map (·.1)

theorem Fits.find?_eq_none {σ : Type} {limit : Nat} {fs : List (Member σ)}
    {full : List (String × Json)} {state : List String → σ} (h : Fits limit fs full state) {k : String}
    (hk : k ∉ full.map (·.1)) : fs.find? (·.name == k) = none := by
  rw [← h.names] at hk
  rw [List.find?_eq_none]
  intro f hf hname
  exact hk (List.mem_map.2 ⟨f, hf, by simpa using hname⟩)

/-- **The members of an object are read one after the other.** -/
theorem Fits.reads_named {σ : Type} {limit : Nat} {fs : List (Member σ)}
    {full : List (String × Json)} {state : List String → σ} (h : Fits limit fs full state)
    {ms : List (String × Json)} (hms : ∀ m ∈ ms, m.1 ∈ full.map (·.1) → m ∈ full)
    {seen : List String} (hseen : (knownNames full ms ++ seen).Nodup) (first : Bool) {rounds : Nat}
    {rest : List Char} (hlimit : (listed first ms ++ '}' :: rest).length ≤ limit)
    (hrounds : (listed first ms ++ '}' :: rest).length ≤ rounds) :
    Reads (named limit fs rounds first seen (state seen)) (listed first ms ++ '}' :: rest)
      (state ((knownNames full ms).reverse ++ seen)) ('}' :: rest) := by
  induction ms generalizing seen first rounds with
  | nil =>
    obtain ⟨rounds, rfl⟩ : ∃ n, rounds = n + 1 :=
      Nat.exists_eq_add_one_of_ne_zero (by simp at hrounds; omega)
    have hend : listed first [] ++ '}' :: rest = '}' :: rest := by cases first <;> rfl
    rw [hend]
    exact (reads_hasKey_end first rest).bind (.pure _ _)
  | cons m ms ih =>
    obtain ⟨k, x⟩ := m
    have hkey := reads_hasKey_listed first k x ms ('}' :: rest)
    have hlength := length_listed first k x ms ('}' :: rest)
    have hstring := length_le_stringChars k
    have hends : Ends (continued (memberChars ms) ++ '}' :: rest) := ends_continued (.inr rfl) rest
    have hvalue : (x.chars ++ (continued (memberChars ms) ++ '}' :: rest)).length ≤ limit := by omega
    have hshort : (listed false ms ++ '}' :: rest).length ≤
        (x.chars ++ (continued (memberChars ms) ++ '}' :: rest)).length := by simp [listed]
    have hmore : ∀ m ∈ ms, m.1 ∈ full.map (·.1) → m ∈ full :=
      fun m hm => hms m (List.mem_cons_of_mem _ hm)
    obtain ⟨rounds, rfl⟩ : ∃ n, rounds = n + 1 := Nat.exists_eq_add_one_of_ne_zero (by omega)
    by_cases hk : k ∈ full.map (·.1)
    · -- the field is set, and its name has been seen from here on
      have hnames : knownNames full ((k, x) :: ms) = k :: knownNames full ms := by
        simp only [knownNames, List.filter_cons, hk, decide_true, if_true, List.map_cons]
      rw [hnames, List.cons_append] at hseen
      have hnew : k ∉ seen := fun hmem =>
        (List.nodup_cons.1 hseen).1 (List.mem_append_right _ hmem)
      obtain ⟨f, hfind, hset⟩ := h.known _ (hms _ List.mem_cons_self hk)
      have hrest := ih hmore (List.perm_middle.symm.nodup hseen) false (by omega)
        (show _ ≤ rounds by omega)
      rw [hnames, List.reverse_cons, List.append_assoc, List.singleton_append]
      exact reads_named_known hkey (by omega) hfind hnew (hset seen _ hends hvalue) hrest
    · have hnames : knownNames full ((k, x) :: ms) = knownNames full ms := by
        simp only [knownNames, List.filter_cons, hk, decide_false, Bool.false_eq_true, if_false]
      rw [hnames] at hseen ⊢
      have hrest := ih hmore hseen false (by omega) (show _ ≤ rounds by omega)
      exact reads_named_unknown hkey (by omega) (h.find?_eq_none hk) hends hvalue hrest

/-- **A record is read from an object** with its members in any order and further members. -/
theorem Fits.reads_record {σ : Type} {limit : Nat} {fs : List (Member σ)}
    {full : List (String × Json)} {state : List String → σ} (h : Fits limit fs full state)
    {ms : List (String × Json)} (hms : ∀ m ∈ ms, m.1 ∈ full.map (·.1) → m ∈ full)
    (hnodup : (knownNames full ms).Nodup) (expected : String) {rest : List Char}
    (hlimit : ((Json.object ms).chars ++ rest).length ≤ limit) :
    Reads (record limit expected fs (state [])) ((Json.object ms).chars ++ rest)
      (state (knownNames full ms).reverse) rest := by
  have htext : (Json.object ms).chars ++ rest = '{' :: (listed true ms ++ '}' :: rest) := by
    simp [chars, listed]
  rw [htext, List.length_cons] at hlimit
  have hmembers : Reads (named limit fs (limit + 1) true [] (state [])) _
      (state ((knownNames full ms).reverse ++ [])) ('}' :: rest) :=
    h.reads_named hms (by simpa using hnodup) true (by omega) (by omega)
  rw [List.append_nil] at hmembers
  rw [htext]
  exact (reads_skipBlank rfl _).bind ((reads_skip '{' _).bind
    (hmembers.bind ((reads_endObject rest).bind (.pure _ rest))))

end Reader

section Varies

variable {dropped : List String} {full ms : List (String × Json)}

theorem Varies.refl (full : List (String × Json)) : Varies [] full full := by
  have hall : (full.filter fun m => m.1 ∈ full.map (·.1)) = full :=
    List.filter_eq_self.2 fun m hm => by simpa using ⟨m.2, hm⟩
  have hnone : (full.filter fun m => m.1 ∉ ([] : List String)) = full :=
    List.filter_eq_self.2 fun m _ => by simp
  rw [Varies, hall, hnone]

theorem Varies.mem (h : Varies dropped full ms) :
    ∀ m ∈ ms, m.1 ∈ full.map (·.1) → m ∈ full := by
  intro m hm hknown
  have hkept : m ∈ full.filter fun m => m.1 ∉ dropped :=
    h.mem_iff.1 (List.mem_filter.2 ⟨hm, by simpa using hknown⟩)
  exact (List.mem_filter.1 hkept).1

theorem Varies.nodup (h : Varies dropped full ms) (hfull : (full.map (·.1)).Nodup) :
    (Reader.knownNames full ms).Nodup :=
  (h.map _).nodup_iff.2 (hfull.sublist (List.filter_sublist.map _))

/-- What a variation keeps is what it does not drop. -/
theorem Varies.mem_knownNames (h : Varies dropped full ms) {k : String} (hk : k ∈ full.map (·.1)) :
    k ∈ Reader.knownNames full ms ↔ k ∉ dropped := by
  rw [Reader.knownNames, (h.map _).mem_iff, List.mem_map]
  constructor
  · rintro ⟨m, hm, rfl⟩
    simpa using (List.mem_filter.1 hm).2
  · intro hdropped
    obtain ⟨m, hm, rfl⟩ := List.mem_map.1 hk
    exact ⟨m, List.mem_filter.2 ⟨hm, by simpa using hdropped⟩, rfl⟩

/-- **A record is read from any variation of its object**: the state is that of the names kept. -/
theorem Reader.Fits.reads_varied {σ : Type} {limit : Nat} {fs : List (Reader.Member σ)}
    {state : List String → σ} (hfits : Fits limit fs full state) (h : Varies dropped full ms)
    (hfull : (full.map (·.1)).Nodup) {x : σ}
    (hstate : ∀ seen : List String, (∀ k ∈ full.map (·.1), k ∈ seen ↔ k ∉ dropped) → state seen = x)
    (expected : String) {rest : List Char}
    (hlimit : ((Json.object ms).chars ++ rest).length ≤ limit) :
    Reader.Reads (Reader.record limit expected fs (state [])) ((Json.object ms).chars ++ rest) x
      rest :=
  (hfits.reads_record h.mem (h.nodup hfull) expected hlimit).congr
    (hstate _ fun k hk => by rw [List.mem_reverse, h.mem_knownNames hk])

end Varies

end Json

open Json Json.Reader

namespace DecoderConfig

/-- The members of the JSON form. -/
def members (c : DecoderConfig) : List (String × Json) :=
  [("max_buffer_size", .ofNat c.chunkSize.toNat), ("schemas_enable", .bool c.envelopes),
    ("temp_dir", .ofOption .string c.scratch)]

/-- The settings with the names that are kept, and the defaults of the others. -/
def keeping (c : DecoderConfig) (kept : String → Bool) : DecoderConfig where
  chunkSize := if kept "max_buffer_size" then c.chunkSize else 4096
  envelopes := if kept "schemas_enable" then c.envelopes else false
  scratch := if kept "temp_dir" then c.scratch else none

end DecoderConfig

namespace FeedConfig

/-- The members of the JSON form, with the settings of the decoders in a form of their own. -/
def members (c : FeedConfig) (decoder : Json) : List (String × Json) :=
  [("bucket", .string c.bucket), ("prefix", .ofOption .string c.keyPrefix),
    ("fetch_page_size", .ofNat c.fetchPageSize.toNat),
    ("task_id", .ofOption (fun n : Int64 => .ofInt n.toInt) c.taskId),
    ("max_tasks", .ofOption (fun n : Int64 => .ofInt n.toInt) c.maxTasks),
    ("input_format", .string c.format.name), ("transformer", decoder),
    ("errors_tolerance", .string c.tolerance.name), ("file_name_template", .string c.template),
    ("target_topic", .ofOption .string c.topic), ("max_poll_records", .ofNat c.maxPollRecords.toNat)]

/-- The settings with the names that are kept, and the defaults of the others. -/
def keeping (c : FeedConfig) (kept : String → Bool) : FeedConfig where
  bucket := if kept "bucket" then c.bucket else ""
  keyPrefix := if kept "prefix" then c.keyPrefix else none
  fetchPageSize := if kept "fetch_page_size" then c.fetchPageSize else 10
  taskId := if kept "task_id" then c.taskId else none
  maxTasks := if kept "max_tasks" then c.maxTasks else none
  format := if kept "input_format" then c.format else .bytes
  decoder := if kept "transformer" then c.decoder else {}
  tolerance := if kept "errors_tolerance" then c.tolerance else .none
  template := if kept "file_name_template" then c.template else defaultTemplate
  topic := if kept "target_topic" then c.topic else none
  maxPollRecords := if kept "max_poll_records" then c.maxPollRecords else 500

end FeedConfig

section Fields

variable {limit : Nat} {rest : List Char}

theorem reads_optional_text {expected : String} {o : Option String}
    (hlimit : ((Json.ofOption .string o).chars ++ rest).length ≤ limit) :
    Reads (optional (text limit expected)) ((Json.ofOption .string o).chars ++ rest) o rest := by
  cases o with
  | none => exact reads_optional_null _ rest
  | some s =>
    have hlength : (stringChars s).length ≤ limit := by
      simp only [Json.ofOption, chars, List.length_append] at hlimit
      omega
    exact reads_optional rfl (by decide) (reads_text hlength rest)

theorem reads_natural {bits n : Nat} (hbits : bits ≤ 64) (hn : n < pow2 bits) {expected : String}
    (hrest : Ends rest) (hlimit : ((Json.ofNat n).chars ++ rest).length ≤ limit) :
    Reads (integer limit 0 (pow2 bits - 1) expected) ((Json.ofNat n).chars ++ rest) n rest := by
  have hlength : (Number.intChars n).length ≤ limit := by
    simp only [Json.ofNat, Json.ofInt, chars, Number.chars, List.length_append] at hlimit
    omega
  have hpow : pow2 bits ≤ pow2 64 := Nat.pow_le_pow_right (by decide) hbits
  exact reads_integer hrest hlength (by omega) (by omega) (by omega) (by omega)

theorem reads_word {n : Int64} (hrest : Ends rest)
    (hlimit : ((Json.ofInt n.toInt).chars ++ rest).length ≤ limit) :
    Reads (FeedConfig.word limit) ((Json.ofInt n.toInt).chars ++ rest) n rest := by
  have hlength : (Number.intChars n.toInt).length ≤ limit := by
    simp only [Json.ofInt, chars, Number.chars, List.length_append] at hlimit
    omega
  have hlow : -(pow2 63 : Int) ≤ n.toInt := n.le_toInt
  have hhigh : n.toInt < pow2 63 := n.toInt_lt
  have hpow : pow2 63 < pow2 64 := by decide
  exact (reads_integer hrest hlength hlow (by omega) hlow (by omega)).bind
    ((Reads.pure _ rest).congr (Int64.ofInt_toInt n))

/-- Neither the sign nor the first digit of an integer is taken for null. -/
theorem exists_intChars (n : Int) :
    ∃ c cs, (Json.ofInt n).chars = c :: cs ∧ Reader.isBlank c = false ∧ c ≠ 'n' := by
  simp only [Json.ofInt, chars, Number.chars, Number.intChars]
  split
  · exact ⟨'-', _, rfl, rfl, by decide⟩
  · obtain ⟨c, cs, hcs, hc⟩ := exists_digitsOf n.natAbs
    exact ⟨c, cs, hcs, not_isBlank_of_isDigit hc, by rintro rfl; cases hc⟩

theorem reads_optional_word {o : Option Int64} (hrest : Ends rest)
    (hlimit : ((Json.ofOption (fun n : Int64 => .ofInt n.toInt) o).chars ++ rest).length ≤ limit) :
    Reads (optional (FeedConfig.word limit))
      ((Json.ofOption (fun n : Int64 => .ofInt n.toInt) o).chars ++ rest) o rest := by
  cases o with
  | none => exact reads_optional_null _ rest
  | some n =>
    have hword := reads_word hrest hlimit
    obtain ⟨c, cs, hcs, hblank, hnull⟩ := exists_intChars n.toInt
    rw [hcs] at hword
    rw [Json.ofOption, hcs]
    exact reads_optional hblank hnull hword

theorem length_le_of_append {s : String} (hlimit : ((Json.string s).chars ++ rest).length ≤ limit) :
    (stringChars s).length ≤ limit := by
  simp only [chars, List.length_append] at hlimit
  omega

end Fields

namespace DecoderConfig

theorem fits (c : DecoderConfig) (limit : Nat) :
    Fits limit (fields limit) c.members fun seen => c.keeping (· ∈ seen) where
  known := by
    simp only [members, List.forall_mem_cons]
    refine ⟨⟨_, rfl, fun seen rest hrest hlimit => ?_⟩, ⟨_, rfl, fun seen rest hrest hlimit => ?_⟩,
      ⟨_, rfl, fun seen rest hrest hlimit => ?_⟩, by simp⟩
    · exact (reads_natural (by decide) c.chunkSize.toNat_lt hrest hlimit).bind
        ((Reads.pure _ rest).congr (by simp [keeping]))
    · exact (reads_flag limit _ rest).bind ((Reads.pure _ rest).congr (by simp [keeping]))
    · exact (reads_optional_text hlimit).bind ((Reads.pure _ rest).congr (by simp [keeping]))
  names := rfl

theorem nodup_members (c : DecoderConfig) : (c.members.map (·.1)).Nodup := by
  simp only [members, List.map_cons, List.map_nil]
  decide

theorem keeping_congr {c : DecoderConfig} {kept kept' : String → Bool}
    (h : ∀ k ∈ c.members.map (·.1), kept k = kept' k) : c.keeping kept = c.keeping kept' := by
  simp only [members, List.map_cons, List.map_nil, List.forall_mem_cons] at h
  simp only [keeping, h]

/-- **The settings of the decoders are read back** from any variation of their JSON form. -/
theorem reads_reader {c : DecoderConfig} {dropped : List String} {ms : List (String × Json)}
    (h : Varies dropped c.members ms) {limit : Nat} {rest : List Char}
    (hlimit : ((Json.object ms).chars ++ rest).length ≤ limit) :
    Reads (reader limit) ((Json.object ms).chars ++ rest) (c.keeping (· ∉ dropped)) rest := by
  have hrecord : Reads (record limit _ (fields limit) (c.keeping (· ∈ []))) _
      (c.keeping (· ∉ dropped)) rest :=
    (c.fits limit).reads_varied h c.nodup_members
      (fun seen hseen => keeping_congr fun k hk => by simp only [hseen k hk])
      "struct TransformerConfig" hlimit
  have hstart : c.keeping (· ∈ []) = {} := by simp [keeping]
  rwa [hstart] at hrecord

end DecoderConfig

namespace FeedConfig

theorem fits (c : FeedConfig) {decoder : Json} {limit : Nat}
    (hdecoder : ∀ rest, (decoder.chars ++ rest).length ≤ limit →
      Reads (DecoderConfig.reader limit) (decoder.chars ++ rest) c.decoder rest) :
    Fits limit (fields limit) (c.members decoder) fun seen => c.keeping (· ∈ seen) where
  known := by
    simp only [members, List.forall_mem_cons]
    refine ⟨⟨_, rfl, fun seen rest hrest hlimit => ?_⟩, ⟨_, rfl, fun seen rest hrest hlimit => ?_⟩,
      ⟨_, rfl, fun seen rest hrest hlimit => ?_⟩, ⟨_, rfl, fun seen rest hrest hlimit => ?_⟩,
      ⟨_, rfl, fun seen rest hrest hlimit => ?_⟩, ⟨_, rfl, fun seen rest hrest hlimit => ?_⟩,
      ⟨_, rfl, fun seen rest hrest hlimit => ?_⟩, ⟨_, rfl, fun seen rest hrest hlimit => ?_⟩,
      ⟨_, rfl, fun seen rest hrest hlimit => ?_⟩, ⟨_, rfl, fun seen rest hrest hlimit => ?_⟩,
      ⟨_, rfl, fun seen rest hrest hlimit => ?_⟩, by simp⟩
    · exact (reads_text (length_le_of_append hlimit) rest).bind
        ((Reads.pure _ rest).congr (by simp [keeping]))
    · exact (reads_optional_text hlimit).bind ((Reads.pure _ rest).congr (by simp [keeping]))
    · exact (reads_natural (by decide) c.fetchPageSize.toNat_lt hrest hlimit).bind
        ((Reads.pure _ rest).congr (by simp [keeping]))
    · exact (reads_optional_word hrest hlimit).bind ((Reads.pure _ rest).congr (by simp [keeping]))
    · exact (reads_optional_word hrest hlimit).bind ((Reads.pure _ rest).congr (by simp [keeping]))
    · have hname : Members.get? c.format.name (Format.all.map fun f => (f.name, f)) =
          some c.format := by
        cases c.format <;> rfl
      exact (reads_oneOf hname (length_le_of_append hlimit) rest).bind
        ((Reads.pure _ rest).congr (by simp [keeping]))
    · exact (hdecoder rest hlimit).bind ((Reads.pure _ rest).congr (by simp [keeping]))
    · have hname : Members.get? c.tolerance.name [("none", Tolerance.none), ("all", .all)] =
          some c.tolerance := by
        cases c.tolerance <;> rfl
      exact (reads_oneOf hname (length_le_of_append hlimit) rest).bind
        ((Reads.pure _ rest).congr (by simp [keeping]))
    · exact (reads_text (length_le_of_append hlimit) rest).bind
        ((Reads.pure _ rest).congr (by simp [keeping]))
    · exact (reads_optional_text hlimit).bind ((Reads.pure _ rest).congr (by simp [keeping]))
    · exact (reads_natural (by decide) c.maxPollRecords.toNat_lt hrest hlimit).bind
        ((Reads.pure _ rest).congr (by simp [keeping]))
  names := rfl

theorem nodup_members (c : FeedConfig) (decoder : Json) :
    ((c.members decoder).map (·.1)).Nodup := by
  simp only [members, List.map_cons, List.map_nil]
  decide

theorem keeping_congr {c : FeedConfig} (decoder : Json) {kept kept' : String → Bool}
    (h : ∀ k ∈ (c.members decoder).map (·.1), kept k = kept' k) :
    c.keeping kept = c.keeping kept' := by
  simp only [members, List.map_cons, List.map_nil, List.forall_mem_cons] at h
  simp only [keeping, h]

/-- The settings without some, and without some of those of the decoders. -/
def without (c : FeedConfig) (dropped inner : List String) : FeedConfig :=
  { c with decoder := c.decoder.keeping (· ∉ inner) }.keeping (· ∉ dropped)

theorem without_nil (c : FeedConfig) : c.without [] [] = c := by
  simp [without, keeping, DecoderConfig.keeping]

theorem ofJson_of_varies {c : FeedConfig} {dropped inner : List String} {ds ms : List (String × Json)}
    (hds : Varies inner c.decoder.members ds) (hms : Varies dropped (c.members (.object ds)) ms) :
    ofJson (Json.object ms).compact = .ok (c.without dropped inner) := by
  -- the settings of the decoders are those that their own object gives
  obtain ⟨kept, hkept⟩ : ∃ kept, { c with decoder := c.decoder.keeping (· ∉ inner) } = kept := ⟨_, rfl⟩
  have hmembers : c.members (.object ds) = kept.members (.object ds) := by rw [← hkept]; rfl
  rw [hmembers] at hms
  obtain ⟨limit, hlimit⟩ : ∃ n, (Json.object ms).chars.length = n := ⟨_, rfl⟩
  have hdecoder : ∀ rest, ((Json.object ds).chars ++ rest).length ≤ limit →
      Reads (DecoderConfig.reader limit) ((Json.object ds).chars ++ rest) kept.decoder rest := by
    rw [← hkept]
    exact fun rest => DecoderConfig.reads_reader hds
  have hrecord : Reads (record limit _ (fields limit) (kept.keeping (· ∈ []))) _
      (kept.keeping (· ∉ dropped)) [] :=
    (kept.fits hdecoder).reads_varied hms (kept.nodup_members _)
      (fun seen hseen => keeping_congr (.object ds) fun k hk => by simp only [hseen k hk])
      "struct SourceConfig" (by rw [List.append_nil]; omega)
  have hstart : kept.keeping (· ∈ []) = {} := by simp [keeping]
  rw [hstart, List.append_nil] at hrecord
  rw [ofJson, compact, String.toList_ofList, hlimit, without, hkept]
  exact hrecord.run

/-- **Settings survive their JSON form.** Without some of the fields, in any order and with any
further fields, at both levels, the others are read back and those without have their defaults. -/
theorem ofJson_json (c : FeedConfig) :
    ofJson c.json.compact = .ok c ∧
      ∀ (dropped inner : List String) (ds ms : List (String × Json)),
        Varies inner c.decoder.members ds → Varies dropped (c.members (.object ds)) ms →
          ofJson (Json.object ms).compact = .ok (c.without dropped inner) := by
  refine ⟨?_, fun dropped inner ds ms hds hms => ofJson_of_varies hds hms⟩
  have hvaries : ofJson c.json.compact = .ok (c.without [] []) :=
    ofJson_of_varies (Varies.refl _) (Varies.refl (c.members c.decoder.json))
  rwa [without_nil] at hvaries

theorem ofJson_json_sample :
    let c : FeedConfig := {
      keyPrefix := some "a\"b", taskId := some (-1), format := .jsonl
      decoder := { envelopes := true, scratch := some "/t" } }
    let ds : List (String × Json) :=
      [("temp_dir", .string "/t"), ("colour", .null), ("max_buffer_size", .ofNat 4096)]
    ofJson c.json.compact = .ok c ∧
      ofJson (Json.object [("transformer", .object ds), ("more", .array [.object [], .bool true]),
        ("task_id", .ofInt (-1)), ("input_format", .string "jsonl")]).compact =
        .ok { taskId := some (-1), format := .jsonl, decoder := { scratch := some "/t" } } := by
  intro c ds
  refine ⟨(ofJson_json c).1, (ofJson_json c).2
    ["bucket", "prefix", "fetch_page_size", "max_tasks", "errors_tolerance", "file_name_template",
      "target_topic", "max_poll_records"] ["schemas_enable"] ds _ ?_ ?_⟩
  · exact List.Perm.swap ..
  · exact (List.perm_append_comm : List.Perm ([_] ++ [_, _]) ([_, _] ++ [_]))

end FeedConfig

end ObjectFeed
