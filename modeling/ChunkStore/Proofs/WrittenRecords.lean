import ChunkStore.Json.Schema
import ChunkStore.Proofs.BasePaths
import ChunkStore.Proofs.DecimalWords
import ChunkStore.Proofs.NamedMembers

/-!
# Written records, read back

Every type of the data model can be read from the compact text of its values. A record is written
as an object with all its members under distinct names, and each member is read back from the
document that it was written as. What is read has numbers of 64 bits and ids that were parsed
from the text in the document, so these values, and no others, have a text.
-/

namespace ChunkStore

namespace Json

variable {α : Type} {take : Document → Option α} {write : α → Json String} {Fits : α → Prop}
  {d : Document} {member : Option Document} {n : Nat}

def parse? (take : Document → Option α) (text : String) : Option α := (read? text).bind take

theorem parse?_text {j : Json String} (formed : Formed j) (take : Document → Option α) :
    parse? take j.text = take (document j) := by
  rw [parse?, read?_text formed, Option.bind_some]

/-- The values that fit are those that are read from texts, and each of them is read from its
own. -/
structure RoundTrips (write : α → Json String) (take : Document → Option α) (Fits : α → Prop) :
    Prop where
  back : ∀ a, Fits a → parse? take (write a).text = some a
  only : ∀ text a, parse? take text = some a → Fits a

/-- It suffices to look at documents, whose texts are read back as they are. -/
theorem RoundTrips.of_documents (formed : ∀ a, Formed (write a))
    (back : ∀ a, Fits a → take (document (write a)) = some a)
    (only : ∀ d a, take d = some a → Fits a) : RoundTrips write take Fits where
  back a fits := by
    rw [parse?_text (formed a)]
    exact back a fits
  only text a read := by
    obtain ⟨d, -, taken⟩ := Option.bind_eq_some_iff.1 read
    exact only d a taken

/-! ## Members -/

@[simp] theorem formed_nat (n : Nat) : Formed (.nat n) := .number (Numeral.formed_ofNat n)

theorem word?_nat (h : n < Text.wordBound) : word? (document (.nat n)) = some n :=
  Text.word?_eq_some_iff.2 ⟨h, 0, rfl⟩

theorem lt_of_word? (h : word? d = some n) : n < Text.wordBound := by
  cases d with
  | number numeral =>
    rw [word?, Numeral.word?] at h
    split at h
    · cases h
    · exact (Text.word?_eq_some_iff.1 h).1
  | _ => cases h

theorem lt_of_required (h : required word? member = some n) : n < Text.wordBound := by
  obtain ⟨d, -, taken⟩ := Option.bind_eq_some_iff.1 h
  exact lt_of_word? taken

/-- What is true of all that can be taken is true of a member with a default of which it is
true. -/
theorem of_withDefault {P : α → Prop} {default a : α} (start : P default)
    (taken : ∀ d a, take d = some a → P a) (h : withDefault default take member = some a) :
    P a := by
  cases member with
  | none =>
    cases h
    exact start
  | some d => exact taken d a h

theorem record?_written {members : List (String × Json String)}
    (distinct : (members.map Prod.fst).Nodup) :
    record? (members.map Prod.fst) (document (.object members)) =
      some (members.map fun member => some (document member.2)) := by
  have names : (members.map fun member => (member.1, document member.2)).map Prod.fst =
      members.map Prod.fst := by
    rw [List.map_map]
    rfl
  have read : document (.object members) =
      .object (membersOf (members.map fun member => (member.1, document member.2))) := by
    rw [document, documentMembers_eq, membersOf, List.map_map]
    rfl
  rw [read, record?_membersOf _ (names ▸ distinct), List.map_map]
  refine congrArg some (List.map_congr_left fun member mem => ?_)
  exact lookup_eq_some_of_mem (names ▸ distinct) (List.mem_map_of_mem mem)

end Json

open Json

variable {d : Document}

namespace RateLimit

variable {l : RateLimit}

theorem ofJson?_document (small : l.kilobytes < Text.wordBound) :
    ofJson? (document l.toJson) = some l := by
  rw [toJson, ofJson?, word?_nat small, Option.map_some]

theorem lt_of_ofJson? (h : ofJson? d = some l) : l.kilobytes < Text.wordBound := by
  obtain ⟨n, taken, rfl⟩ := Option.map_eq_some_iff.1 h
  exact lt_of_word? taken

theorem round_trips : RoundTrips toJson ofJson? fun l => l.kilobytes < Text.wordBound :=
  .of_documents (fun _ => formed_nat _) (fun _ => ofJson?_document) fun _ _ => lt_of_ofJson?

end RateLimit

namespace ChunkId

/-- An id is read from a string that parses as the id, and from nothing else. -/
theorem ofJson?_eq_some_iff {id : ChunkId} :
    ofJson? d = some id ↔ ∃ s, d = .string (some s) ∧ parse s = .ok id := by
  rw [ofJson?, Option.bind_eq_bind, Option.bind_eq_some_iff]
  refine exists_congr fun s => and_congr ?_ ?_
  · cases d with
    | string text => simp [text?]
    | _ => simp [text?]
  · cases parse s <;> simp [Except.toOption]

theorem ofJson?_document (id : ChunkId) : ofJson? (document id.toJson) = some id :=
  ofJson?_eq_some_iff.2 ⟨id.text, rfl, id.parse_text⟩

theorem round_trips : RoundTrips toJson ofJson? fun id => ∃ s, parse s = .ok id := by
  refine .of_documents (fun id => .string _) (fun id _ => id.ofJson?_document) fun d id read => ?_
  obtain ⟨s, -, parsed⟩ := ofJson?_eq_some_iff.1 read
  exact ⟨s, parsed⟩

end ChunkId

namespace Path

theorem round_trips : RoundTrips toJson ofJson? fun _ => True where
  back p _ := p.read_toJson
  only _ _ _ := trivial

end Path

namespace Config

/-- The numbers of the settings have 64 bits. -/
structure Sized (c : Config) : Prop where
  threads : c.threads < Text.wordBound
  nesting : c.minimumNesting < Text.wordBound
  download : c.downloadLimit.kilobytes < Text.wordBound
  upload : c.uploadLimit.kilobytes < Text.wordBound

theorem ofJson?_eq_some_iff {c : Config} :
    ofJson? d = some c ↔ ∃ dir threads nesting download upload,
      record? ["storage_dir", "threads", "minimum_nesting", "download_rate_limit",
        "upload_rate_limit"] d = some [dir, threads, nesting, download, upload] ∧
      withDefault "" text? dir = some c.storageDir ∧
      withDefault 1 word? threads = some c.threads ∧
      withDefault 0 word? nesting = some c.minimumNesting ∧
      withDefault .unlimited RateLimit.ofJson? download = some c.downloadLimit ∧
      withDefault .unlimited RateLimit.ofJson? upload = some c.uploadLimit := by
  rw [ofJson?, Option.bind_eq_bind, Option.bind_eq_some_iff]
  constructor
  · intro h
    obtain ⟨members, known, read⟩ := h
    split at read
    · simp only [Option.bind_eq_bind, Option.bind_eq_some_iff, Option.pure_def,
        Option.some.injEq] at read
      obtain ⟨_, dir, _, threads, _, nesting, _, download, _, upload, rfl⟩ := read
      exact ⟨_, _, _, _, _, known, dir, threads, nesting, download, upload⟩
    · cases read
  · intro h
    obtain ⟨_, _, _, _, _, known, dir, threads, nesting, download, upload⟩ := h
    exact ⟨_, known, by simp [dir, threads, nesting, download, upload]⟩

theorem round_trips : RoundTrips toJson ofJson? Sized := by
  refine .of_documents (fun c => by simp [toJson, RateLimit.toJson]) (fun c sized => ?_)
    fun d c read => ?_
  · exact ofJson?_eq_some_iff.2 ⟨_, _, _, _, _, record?_written (by simp), rfl,
      word?_nat sized.threads, word?_nat sized.nesting,
      RateLimit.ofJson?_document sized.download, RateLimit.ofJson?_document sized.upload⟩
  · obtain ⟨_, _, _, _, _, -, -, threads, nesting, download, upload⟩ :=
      ofJson?_eq_some_iff.1 read
    exact {
      threads := of_withDefault (P := (· < Text.wordBound)) (by decide)
        (fun _ _ => lt_of_word?) threads
      nesting := of_withDefault (P := (· < Text.wordBound)) (by decide)
        (fun _ _ => lt_of_word?) nesting
      download := of_withDefault (P := (·.kilobytes < Text.wordBound)) (by decide)
        (fun _ _ => RateLimit.lt_of_ofJson?) download
      upload := of_withDefault (P := (·.kilobytes < Text.wordBound)) (by decide)
        (fun _ _ => RateLimit.lt_of_ofJson?) upload }

end Config

namespace Capabilities

theorem round_trips : RoundTrips toJson ofJson? fun _ => True := by
  refine .of_documents (fun c => by simp [toJson]) (fun c _ => ?_) fun _ _ _ => trivial
  have members : record? ["needs_local_cache", "supports_move", "strongly_consistent",
      "fast_listing"] (document c.toJson) = some [some (.bool c.needsLocalCache),
        some (.bool c.supportsMove), some (.bool c.stronglyConsistent),
        some (.bool c.fastListing)] :=
    record?_written (by simp)
  rw [ofJson?, members]
  rfl

end Capabilities

namespace ListEntry

theorem ofJson?_eq_some_iff {e : ListEntry} :
    ofJson? d = some e ↔ ∃ name size, record? ["name", "size"] d = some [name, size] ∧
      required text? name = some e.name ∧ required word? size = some e.size := by
  rw [ofJson?, Option.bind_eq_bind, Option.bind_eq_some_iff]
  constructor
  · intro h
    obtain ⟨members, known, read⟩ := h
    split at read
    · simp only [Option.bind_eq_bind, Option.bind_eq_some_iff, Option.pure_def,
        Option.some.injEq] at read
      obtain ⟨_, name, _, size, rfl⟩ := read
      exact ⟨_, _, known, name, size⟩
    · cases read
  · intro h
    obtain ⟨_, _, known, name, size⟩ := h
    exact ⟨_, known, by simp [name, size]⟩

theorem round_trips : RoundTrips toJson ofJson? fun e => e.size < Text.wordBound := by
  refine .of_documents (fun e => by simp [toJson]) (fun e small => ?_) fun d e read => ?_
  · exact ofJson?_eq_some_iff.2 ⟨_, _, record?_written (by simp), rfl, word?_nat small⟩
  · obtain ⟨_, _, -, -, size⟩ := ofJson?_eq_some_iff.1 read
    exact lt_of_required size

end ListEntry

namespace FileInfo

theorem ofJson?_eq_some_iff {i : FileInfo} :
    ofJson? d = some i ↔ ∃ present directory size,
      record? ["exists", "is_dir", "size"] d = some [present, directory, size] ∧
      required bool? present = some i.present ∧ required bool? directory = some i.isDirectory ∧
      required word? size = some i.size := by
  rw [ofJson?, Option.bind_eq_bind, Option.bind_eq_some_iff]
  constructor
  · intro h
    obtain ⟨members, known, read⟩ := h
    split at read
    · simp only [Option.bind_eq_bind, Option.bind_eq_some_iff, Option.pure_def,
        Option.some.injEq] at read
      obtain ⟨_, present, _, directory, _, size, rfl⟩ := read
      exact ⟨_, _, _, known, present, directory, size⟩
    · cases read
  · intro h
    obtain ⟨_, _, _, known, present, directory, size⟩ := h
    exact ⟨_, known, by simp [present, directory, size]⟩

theorem round_trips : RoundTrips toJson ofJson? fun i => i.size < Text.wordBound := by
  refine .of_documents (fun i => by simp [toJson]) (fun i small => ?_) fun d i read => ?_
  · exact ofJson?_eq_some_iff.2
      ⟨_, _, _, record?_written (by simp), rfl, rfl, word?_nat small⟩
  · obtain ⟨_, _, _, -, -, -, size⟩ := ofJson?_eq_some_iff.1 read
    exact lt_of_required size

end FileInfo

namespace ChunkLocation

theorem ofJson?_eq_some_iff {l : ChunkLocation} :
    ofJson? d = some l ↔ ∃ path present size,
      record? ["path", "exists", "size"] d = some [path, present, size] ∧
      required text? path = some l.path ∧ required bool? present = some l.present ∧
      required word? size = some l.size := by
  rw [ofJson?, Option.bind_eq_bind, Option.bind_eq_some_iff]
  constructor
  · intro h
    obtain ⟨members, known, read⟩ := h
    split at read
    · simp only [Option.bind_eq_bind, Option.bind_eq_some_iff, Option.pure_def,
        Option.some.injEq] at read
      obtain ⟨_, path, _, present, _, size, rfl⟩ := read
      exact ⟨_, _, _, known, path, present, size⟩
    · cases read
  · intro h
    obtain ⟨_, _, _, known, path, present, size⟩ := h
    exact ⟨_, known, by simp [path, present, size]⟩

theorem round_trips : RoundTrips toJson ofJson? fun l => l.size < Text.wordBound := by
  refine .of_documents (fun l => by simp [toJson]) (fun l small => ?_) fun d l read => ?_
  · exact ofJson?_eq_some_iff.2
      ⟨_, _, _, record?_written (by simp), rfl, rfl, word?_nat small⟩
  · obtain ⟨_, _, _, -, -, -, size⟩ := ofJson?_eq_some_iff.1 read
    exact lt_of_required size

end ChunkLocation

namespace ChunkListing

theorem ofJson?_eq_some_iff {c : ChunkListing} :
    ofJson? d = some c ↔ ∃ id path size fossil,
      record? ["id", "path", "size", "is_fossil"] d = some [id, path, size, fossil] ∧
      required ChunkId.ofJson? id = some c.id ∧ required text? path = some c.path ∧
      required word? size = some c.size ∧ required bool? fossil = some c.fossil := by
  rw [ofJson?, Option.bind_eq_bind, Option.bind_eq_some_iff]
  constructor
  · intro h
    obtain ⟨members, known, read⟩ := h
    split at read
    · simp only [Option.bind_eq_bind, Option.bind_eq_some_iff, Option.pure_def,
        Option.some.injEq] at read
      obtain ⟨_, id, _, path, _, size, _, fossil, rfl⟩ := read
      exact ⟨_, _, _, _, known, id, path, size, fossil⟩
    · cases read
  · intro h
    obtain ⟨_, _, _, _, known, id, path, size, fossil⟩ := h
    exact ⟨_, known, by simp [id, path, size, fossil]⟩

/-- The id of a chunk is what the text that the document gives for it parses as. -/
theorem parse_of_ofJson? {c : ChunkListing} (h : ofJson? d = some c) :
    ∃ s, (∀ value, Gives 0 "id" d value ↔ value = .string (some s)) ∧
      ChunkId.parse s = .ok c.id := by
  obtain ⟨id, _, _, _, members, taken, -⟩ := ofJson?_eq_some_iff.1 h
  obtain ⟨given, there, read⟩ := Option.bind_eq_some_iff.1 taken
  obtain ⟨s, rfl, parsed⟩ := ChunkId.ofJson?_eq_some_iff.1 read
  refine ⟨s, fun value => ?_, parsed⟩
  rw [← getElem?_record? members (by rfl), there, List.getElem?_cons_zero]
  simp [eq_comm]

theorem round_trips : RoundTrips toJson ofJson? fun c =>
    c.size < Text.wordBound ∧ ∃ s, ChunkId.parse s = .ok c.id := by
  refine .of_documents (fun c => by simp [toJson, ChunkId.toJson]) (fun c fits => ?_)
    fun d c read => ?_
  · exact ofJson?_eq_some_iff.2 ⟨_, _, _, _, record?_written (by simp),
      c.id.ofJson?_document, rfl, word?_nat fits.1, rfl⟩
  · obtain ⟨_, _, _, _, -, -, -, size, -⟩ := ofJson?_eq_some_iff.1 read
    obtain ⟨s, -, parsed⟩ := parse_of_ofJson? read
    exact ⟨lt_of_required size, s, parsed⟩

end ChunkListing

namespace Json

/-- Every value of the data model is read back from its own text, and only such values are read
from texts. An id that is read is what its text parses as, whether the id stands alone or in a
record; nothing else can be given for it. -/
theorem data_model_reads_back :
    RoundTrips Config.toJson Config.ofJson? Config.Sized ∧
    RoundTrips Capabilities.toJson Capabilities.ofJson? (fun _ => True) ∧
    RoundTrips ChunkId.toJson ChunkId.ofJson? (fun id => ∃ s, ChunkId.parse s = .ok id) ∧
    RoundTrips ListEntry.toJson ListEntry.ofJson? (·.size < Text.wordBound) ∧
    RoundTrips ChunkLocation.toJson ChunkLocation.ofJson? (·.size < Text.wordBound) ∧
    RoundTrips ChunkListing.toJson ChunkListing.ofJson?
      (fun c => c.size < Text.wordBound ∧ ∃ s, ChunkId.parse s = .ok c.id) ∧
    RoundTrips FileInfo.toJson FileInfo.ofJson? (·.size < Text.wordBound) ∧
    RoundTrips Path.toJson Path.ofJson? (fun _ => True) ∧
    RoundTrips RateLimit.toJson RateLimit.ofJson? (·.kilobytes < Text.wordBound) ∧
    (∀ text id, parse? ChunkId.ofJson? text = some id ↔
      ∃ s, read? text = some (.string (some s)) ∧ ChunkId.parse s = .ok id) ∧
    (∀ text c, parse? ChunkListing.ofJson? text = some c →
      ∃ d s, read? text = some d ∧ (∀ value, Gives 0 "id" d value ↔ value = .string (some s)) ∧
        ChunkId.parse s = .ok c.id) := by
  refine ⟨Config.round_trips, Capabilities.round_trips, ChunkId.round_trips,
    ListEntry.round_trips, ChunkLocation.round_trips, ChunkListing.round_trips,
    FileInfo.round_trips, Path.round_trips, RateLimit.round_trips, fun text id => ?_,
    fun text c read => ?_⟩
  · rw [parse?, Option.bind_eq_some_iff]
    constructor
    · intro read
      obtain ⟨d, known, taken⟩ := read
      obtain ⟨s, rfl, parsed⟩ := ChunkId.ofJson?_eq_some_iff.1 taken
      exact ⟨s, known, parsed⟩
    · intro read
      obtain ⟨s, known, parsed⟩ := read
      exact ⟨_, known, ChunkId.ofJson?_eq_some_iff.2 ⟨s, rfl, parsed⟩⟩
  · obtain ⟨d, known, taken⟩ := Option.bind_eq_some_iff.1 read
    obtain ⟨s, given, parsed⟩ := ChunkListing.parse_of_ofJson? taken
    exact ⟨d, s, known, given, parsed⟩

/-- The greatest number and characters that need escapes are read back, and an id is taken from
an array by its position. -/
theorem odd_values_read_back :
    ((⟨"\"\\\n\u0001😀", 18446744073709551615⟩ : ListEntry).toJson.text =
        "\x7b\"name\":\"\\\"\\\\\\n\\u0001😀\",\"size\":18446744073709551615\x7d" ∧
      parse? ListEntry.ofJson?
        (⟨"\"\\\n\u0001😀", 18446744073709551615⟩ : ListEntry).toJson.text =
          some ⟨"\"\\\n\u0001😀", 18446744073709551615⟩) ∧
    parse? Config.ofJson? "[\"/\",0,18446744073709551615]" =
      some ⟨"/", 0, 18446744073709551615, ⟨0⟩, ⟨0⟩⟩ ∧
    Config.Sized ⟨"/", 0, 18446744073709551615, ⟨0⟩, ⟨0⟩⟩ ∧
    parse? ChunkListing.ofJson? "[\"0Aff\",\"p\",1,true]" =
      some ⟨⟨"0Aff", by decide⟩, "p", 1, true⟩ ∧
    ∃ d s, read? "[\"0Aff\",\"p\",1,true]" = some d ∧
      (∀ value, Gives 0 "id" d value ↔ value = .string (some s)) ∧
      ChunkId.parse s = .ok ⟨"0Aff", by decide⟩ := by
  obtain ⟨config, -, -, entry, -, -, -, -, -, -, listing⟩ := data_model_reads_back
  have settings : parse? Config.ofJson? "[\"/\",0,18446744073709551615]" =
      some ⟨"/", 0, 18446744073709551615, ⟨0⟩, ⟨0⟩⟩ := by decide +kernel
  have chunk : parse? ChunkListing.ofJson? "[\"0Aff\",\"p\",1,true]" =
      some ⟨⟨"0Aff", by decide⟩, "p", 1, true⟩ := by decide +kernel
  exact ⟨⟨by decide +kernel, entry.back _ (by decide)⟩, settings, config.only _ _ settings, chunk,
    listing _ _ chunk⟩

end Json

end ChunkStore
