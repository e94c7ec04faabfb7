import ChunkStore.Dropbox.Answer
import ChunkStore.Proofs.NamedMembers
import ChunkStore.Proofs.WrittenValues

/-!
# Tags of reported errors

The kind of failure that an answer reports depends on its status and on one chain of tags: the
tag of the error, the tag of what the error stores under it, and so on. Summaries, other members
and values that the chain does not lead to change nothing, however they are named.
-/

namespace ChunkStore

namespace Json

variable {key : String} {v : Json String} {members : List (String × Json String)} {depth : Nat}
  {d : Document}

/-- An object stores the value under the key. Of members that share a key, the last counts. -/
def Stores (j : Json String) (key : String) (v : Json String) : Prop :=
  ∃ before after, j = .object (before ++ (key, v) :: after) ∧ ∀ member ∈ after, member.1 ≠ key

theorem member?_eq_some_iff {j : Json String} : member? key j = some v ↔ j.Stores key v := by
  cases j with
  | object members =>
    rw [member?, List.lookup_eq_some_iff]
    constructor
    · intro h
      obtain ⟨after, before, split, later⟩ := h
      refine ⟨before.reverse, after.reverse, ?_, ?_⟩
      · rw [← List.reverse_reverse members, split]
        simp
      · intro member mem same
        have other := later member (List.mem_reverse.1 mem)
        simp [same] at other
    · intro h
      obtain ⟨before, after, same, later⟩ := h
      cases same
      refine ⟨after.reverse, before.reverse, by simp, ?_⟩
      intro member mem
      have other := later member (List.mem_reverse.1 mem)
      simp [Ne.symm other]
  | _ =>
    constructor
    · intro h
      cases h
    · intro h
      obtain ⟨before, after, same, -⟩ := h
      cases same

/-! ## Values that are kept -/

theorem keep?_eq_null (h : keep? depth d = some .null) : d = .null := by
  cases d with
  | null => rfl
  | _ => cases depth <;> simp [keep?] at h

theorem keep?_eq_string {s : String} (h : keep? depth d = some (.string s)) :
    d = .string (some s) := by
  cases d with
  | string text =>
    have same : text = some s := by cases depth <;> simpa [keep?] using h
    rw [same]
  | _ => cases depth <;> simp [keep?] at h

theorem keep?_null : keep? depth .null = some .null := by
  cases depth <;> rfl

def Keeps (depth : Nat) (named : List (String × Document)) (members : List (String × Json String)) :
    Prop :=
  named.map (fun member => (member.1, keep? depth member.2)) =
    members.map fun member => (member.1, some member.2)

theorem exists_keeps {ms : List (Option String × Document)}
    (h : ms.mapM (fun member => do return (← member.1, ← keep? depth member.2)) =
      some members) :
    ∃ named, ms = membersOf named ∧ Keeps depth named members := by
  induction ms generalizing members with
  | nil =>
    cases h
    exact ⟨[], rfl, rfl⟩
  | cons member ms ih =>
    rw [List.mapM_cons] at h
    simp only [Option.bind_eq_bind, Option.bind_eq_some_iff, Option.pure_def, Option.some.injEq]
      at h
    obtain ⟨_, ⟨key, text, v, kept, rfl⟩, later, rest, rfl⟩ := h
    obtain ⟨named, rfl, same⟩ := ih rest
    refine ⟨(key, member.2) :: named, ?_, ?_⟩
    · exact congrArg (· :: membersOf named) (Prod.ext text rfl)
    · rw [Keeps, List.map_cons, List.map_cons, same, kept]

theorem keep?_eq_object (h : keep? (depth + 1) d = some (.object members)) :
    ∃ named, d = .object (membersOf named) ∧ Keeps depth named members := by
  cases d with
  | object ms =>
    rw [keep?, Option.map_eq_some_iff] at h
    obtain ⟨_, kept, same⟩ := h
    cases same
    obtain ⟨named, rfl, keeps⟩ := exists_keeps kept
    exact ⟨named, rfl, keeps⟩
  | _ => simp [keep?] at h

theorem Keeps.keys {named : List (String × Document)} (h : Keeps depth named members) :
    named.map Prod.fst = members.map Prod.fst := by
  have keys := congrArg (List.map Prod.fst) h
  rwa [List.map_map, List.map_map] at keys

theorem Keeps.found {named : List (String × Document)} (h : Keeps depth named members)
    (key : String) :
    named.lookup key = none ∧ members.lookup key = none ∨
      ∃ d v, named.lookup key = some d ∧ keep? depth d = some v ∧ (key, v) ∈ members ∧
        members.lookup key = some v := by
  have same : (named.lookup key).map (keep? depth) = (members.lookup key).map some := by
    rw [← lookup_map, ← lookup_map, h]
  cases read : named.lookup key with
  | none =>
    rw [read] at same
    exact .inl ⟨rfl, Option.map_eq_none_iff.1 same.symm⟩
  | some d =>
    rw [read] at same
    obtain ⟨v, found, kept⟩ := Option.map_eq_some_iff.1 same.symm
    exact .inr ⟨d, v, rfl, kept.symm, mem_of_lookup_eq_some found, found⟩

end Json

namespace Dropbox

open Json

variable {body : String} {members : List (String × Json String)} {error : Json String}
  {status : Nat} {tags ts : List String}

/-! ## Chains of tags -/

/-- The tags on the way from an error: its own, then those of what it stores under its tag. -/
inductive TagChain : Json String → List String → Prop
  | none {error : Json String} (h : ∀ tag, ¬error.Stores ".tag" (.string tag)) : TagChain error []
  | last {error : Json String} {tag : String} (h : error.Stores ".tag" (.string tag))
      (ends : ∀ inner, ¬error.Stores tag inner) : TagChain error [tag]
  | next {error inner : Json String} {tag : String} {tags : List String}
      (h : error.Stores ".tag" (.string tag)) (under : error.Stores tag inner)
      (further : TagChain inner tags) : TagChain error (tag :: tags)

theorem tags_of_last {tag : String} (h : member? ".tag" error = some (.string tag))
    (ends : member? tag error = none) : Dropbox.tags error = [tag] := by
  rw [Dropbox.tags, h]
  dsimp only
  split
  · rename_i inner under
    rw [ends] at under
    cases under
  · rfl

theorem tags_of_next {tag : String} {inner : Json String}
    (h : member? ".tag" error = some (.string tag)) (under : member? tag error = some inner) :
    Dropbox.tags error = tag :: Dropbox.tags inner := by
  rw [Dropbox.tags, h]
  dsimp only
  split
  · rename_i other found
    rw [under] at found
    cases found
    rfl
  · rename_i ends
    rw [under] at ends
    cases ends

theorem tags_of_none (h : ∀ tag, member? ".tag" error ≠ some (.string tag)) :
    Dropbox.tags error = [] := by
  rw [Dropbox.tags]
  split
  · rename_i tag found
    exact absurd found (h tag)
  · rfl

theorem TagChain.eq_tags (h : TagChain error ts) : ts = Dropbox.tags error := by
  induction h with
  | none h => exact (tags_of_none fun tag found => h tag (member?_eq_some_iff.1 found)).symm
  | last h ends =>
    have absent := Option.eq_none_iff_forall_ne_some.2
      fun inner found => ends inner (member?_eq_some_iff.1 found)
    exact (tags_of_last (member?_eq_some_iff.2 h) absent).symm
  | next h under _ ih =>
    rw [ih]
    exact (tags_of_next (member?_eq_some_iff.2 h) (member?_eq_some_iff.2 under)).symm

theorem tagChain_tags (error : Json String) : TagChain error (Dropbox.tags error) := by
  induction error using tags.induct with
  | case1 error tag h inner under ih =>
    rw [tags_of_next h under]
    exact .next (member?_eq_some_iff.1 h) (member?_eq_some_iff.1 under) ih
  | case2 error tag h ends =>
    rw [tags_of_last h ends]
    refine .last (member?_eq_some_iff.1 h) fun inner under => ?_
    rw [member?_eq_some_iff.2 under] at ends
    cases ends
  | case3 error h =>
    rw [tags_of_none h]
    exact .none fun tag found => h tag (member?_eq_some_iff.2 found)

/-! ## Bodies that report an error -/

/-- The tags that a body with these members reports: those of its error, if it has one. -/
inductive Reports (members : List (String × Json String)) : List String → Prop
  | absent (h : ∀ error, ("error", error) ∉ members) : Reports members []
  | present {error : Json String} {tags : List String} (mem : ("error", error) ∈ members)
      (chain : TagChain error tags) : Reports members tags

/-- The body of an answer is an object that can be kept, with distinct keys; the summary in it
is a text, or null. -/
structure ErrorBody (body : String) (members : List (String × Json String)) : Prop where
  read : (read? body).bind (keep? maxDepth) = some (.object members)
  distinct : (members.map Prod.fst).Nodup
  summary : ∀ v, ("error_summary", v) ∈ members → v = .null ∨ ∃ s, v = .string s

/-- A body reports one chain of tags, and it is the one that is gathered. -/
theorem reports_iff (distinct : (members.map Prod.fst).Nodup) :
    Reports members ts ↔ ts = ((members.lookup "error").map Dropbox.tags).getD [] := by
  cases found : members.lookup "error" with
  | none =>
    have absent (error : Json String) : ("error", error) ∉ members := by
      intro mem
      rw [lookup_eq_some_of_mem distinct mem] at found
      cases found
    constructor
    · intro h
      cases h with
      | absent => rfl
      | present mem => exact absurd mem (absent _)
    · intro same
      rw [same]
      exact .absent absent
  | some error =>
    constructor
    · intro h
      cases h with
      | absent none => exact absurd (mem_of_lookup_eq_some found) (none error)
      | present mem chain =>
        rw [lookup_eq_some_of_mem distinct mem] at found
        cases found
        exact chain.eq_tags
    · intro same
      rw [same]
      exact .present (mem_of_lookup_eq_some found) (tagChain_tags error)

theorem nullable?_keep? {depth : Nat} {d : Document} (h : keep? depth d = some error) :
    ∃ kept, nullable? (keep? depth) d = some kept ∧
      (kept.map Dropbox.tags).getD [] = Dropbox.tags error := by
  cases d with
  | null =>
    have same : error = .null := by
      rw [keep?_null] at h
      exact (Option.some.inj h).symm
    refine ⟨none, rfl, ?_⟩
    rw [same]
    exact (tags_of_none (by simp [member?])).symm
  | _ =>
    refine ⟨some error, ?_, rfl⟩
    rw [nullable?, h]
    · rfl
    · intro null
      cases null

theorem nullable?_text? {depth : Nat} {d : Document} {v : Json String}
    (h : keep? depth d = some v) (shape : v = .null ∨ ∃ s, v = .string s) :
    ∃ summary, nullable? text? d = some summary := by
  cases shape with
  | inl null =>
    rw [null] at h
    rw [keep?_eq_null h]
    exact ⟨none, rfl⟩
  | inr text =>
    obtain ⟨s, text⟩ := text
    rw [text] at h
    rw [keep?_eq_string h]
    exact ⟨some s, rfl⟩

/-- From such a body a fault is read, whose tags are those of the error member. -/
theorem ErrorBody.fault (h : ErrorBody body members) :
    ∃ fault, (read? body).bind fault? = some fault ∧
      (fault.error.map Dropbox.tags).getD [] =
        ((members.lookup "error").map Dropbox.tags).getD [] := by
  obtain ⟨d, read, kept⟩ := Option.bind_eq_some_iff.1 h.read
  obtain ⟨named, rfl, keeps⟩ := keep?_eq_object kept
  have distinct : (named.map Prod.fst).Nodup := keeps.keys ▸ h.distinct
  have summary : ∃ summary, withDefault none (nullable? text?) (named.lookup "error_summary") =
      some summary := by
    obtain ⟨absent, -⟩ | ⟨d, v, found, kept, mem, -⟩ := keeps.found "error_summary"
    · rw [absent]
      exact ⟨none, rfl⟩
    · rw [found]
      exact nullable?_text? kept (h.summary v mem)
  -- The error is a member of the body, so there is one level less for it.
  have error : ∃ error,
      withDefault none (nullable? (keep? (maxDepth - 1))) (named.lookup "error") = some error ∧
      (error.map Dropbox.tags).getD [] =
        ((members.lookup "error").map Dropbox.tags).getD [] := by
    obtain ⟨absent, none⟩ | ⟨d, v, found, kept, -, member⟩ := keeps.found "error"
    · rw [absent, none]
      exact ⟨.none, rfl, rfl⟩
    · rw [found, member]
      exact nullable?_keep? kept
  obtain ⟨summary, known⟩ := summary
  obtain ⟨error, found, tags⟩ := error
  refine ⟨⟨summary, error⟩, ?_, tags⟩
  rw [read, Option.bind_some, fault?, record?_membersOf _ distinct]
  simp [known, found]

/-! ## Kinds of failure -/

inductive Kind where
  | authFailed
  | rateLimited
  | notFound
  | conflict
  | providerApi
  | other
  deriving Repr, DecidableEq

def kind : Failure → Kind
  | .authFailed _ => .authFailed
  | .rateLimited _ => .rateLimited
  | .notFound _ => .notFound
  | .conflict _ => .conflict
  | .providerApi _ _ => .providerApi
  | _ => .other

def Limited (status : Nat) (tags : List String) : Prop :=
  status = 429 ∨ ∃ tag ∈ tags, "too_many_".toList <+: tag.toList

/-- The kind is the one for the status and the tags, each kind after those before it. -/
structure Follows (status : Nat) (tags : List String) (k : Kind) : Prop where
  auth : k = .authFailed ↔ status = 401
  limited : k = .rateLimited ↔ status ≠ 401 ∧ Limited status tags
  missing : k = .notFound ↔ status ≠ 401 ∧ ¬Limited status tags ∧ "not_found" ∈ tags
  conflict : k = .conflict ↔
    status ≠ 401 ∧ ¬Limited status tags ∧ "not_found" ∉ tags ∧ "conflict" ∈ tags
  provider : k = .providerApi ↔
    status ≠ 401 ∧ ¬Limited status tags ∧ "not_found" ∉ tags ∧ "conflict" ∉ tags

theorem Follows.unique {k k' : Kind} (h : Follows status tags k) (h' : Follows status tags k') :
    k = k' := by
  by_cases auth : status = 401
  · rw [h.auth.2 auth, h'.auth.2 auth]
  by_cases limited : Limited status tags
  · rw [h.limited.2 ⟨auth, limited⟩, h'.limited.2 ⟨auth, limited⟩]
  by_cases missing : "not_found" ∈ tags
  · rw [h.missing.2 ⟨auth, limited, missing⟩, h'.missing.2 ⟨auth, limited, missing⟩]
  by_cases conflict : "conflict" ∈ tags
  · rw [h.conflict.2 ⟨auth, limited, missing, conflict⟩,
      h'.conflict.2 ⟨auth, limited, missing, conflict⟩]
  · rw [h.provider.2 ⟨auth, limited, missing, conflict⟩,
      h'.provider.2 ⟨auth, limited, missing, conflict⟩]

theorem limited_iff :
    (status = 429 ∨ (ts.any fun t => "too_many_".toList.isPrefixOf t.toList) = true) ↔
      Limited status ts := by
  rw [Limited, List.any_eq_true]
  simp only [List.isPrefixOf_iff_prefix]

theorem follows_classify {fault : Fault} (read : (read? body).bind fault? = some fault)
    (status : Nat) (retryAfter : Option Nat) :
    Follows status ((fault.error.map Dropbox.tags).getD [])
      (kind (classify status retryAfter body)) := by
  unfold classify
  rw [read, Option.getD_some]
  dsimp only
  generalize (fault.error.map Dropbox.tags).getD [] = ts
  by_cases auth : status = 401
  · rw [if_pos auth]
    constructor <;> simp [kind, auth]
  rw [if_neg auth]
  split
  · rename_i limited
    have limited := limited_iff.1 limited
    constructor <;> simp [kind, auth, limited]
  rename_i limited
  have limited : ¬Limited status ts := mt limited_iff.2 limited
  by_cases missing : "not_found" ∈ ts
  · rw [if_pos missing]
    constructor <;> simp [kind, auth, limited, missing]
  rw [if_neg missing]
  by_cases conflict : "conflict" ∈ ts
  · rw [if_pos conflict]
    constructor <;> simp [kind, auth, limited, missing, conflict]
  · rw [if_neg conflict]
    constructor <;> simp [kind, auth, limited, missing, conflict]

theorem ErrorBody.follows (h : ErrorBody body members) (reported : Reports members ts)
    (status : Nat) (retryAfter : Option Nat) :
    Follows status ts (kind (classify status retryAfter body)) := by
  obtain ⟨fault, read, same⟩ := h.fault
  rw [(reports_iff h.distinct).1 reported, ← same]
  exact follows_classify read status retryAfter

/-- A body reports one chain of tags. For every status this chain and the status decide the kind
of failure, so that it is the same for every other body that reports this chain. -/
theorem classify_follows_tags (h : ErrorBody body members) :
    ∃ tags, (∀ ts, Reports members ts ↔ ts = tags) ∧
      (∀ status retryAfter, Follows status tags (kind (classify status retryAfter body))) ∧
      ∀ body' members', ErrorBody body' members' → Reports members' tags →
        ∀ status retryAfter retryAfter', kind (classify status retryAfter' body') =
          kind (classify status retryAfter body) := by
  have reported : Reports members (((members.lookup "error").map Dropbox.tags).getD []) :=
    (reports_iff h.distinct).2 rfl
  refine ⟨_, fun ts => reports_iff h.distinct, h.follows reported, ?_⟩
  intro body' members' h' reported' status retryAfter retryAfter'
  have known := h.follows reported status retryAfter
  exact (h'.follows reported' status retryAfter').unique known

/-- An error whose chain ends in `not_found`, beside a tag that the chain does not lead to. -/
def strayError : Json String :=
  .object [(".tag", .string "path"), ("path", .object [(".tag", .string "not_found")]),
    ("reason", .object [(".tag", .string "too_many_files")])]

/-- The members of a body whose other texts name another kind. -/
def strayMembers : List (String × Json String) :=
  [("error_summary", .string "conflict/.."), ("error", strayError), ("conflict", .bool true)]

theorem tagChain_strayError : TagChain strayError ["path", "not_found"] := by
  have ends (inner : Json String) :
      ¬(Json.object [(".tag", .string "not_found")]).Stores "not_found" inner :=
    fun under => nomatch member?_eq_some_iff.2 under
  exact .next (member?_eq_some_iff.1 rfl) (member?_eq_some_iff.1 rfl)
    (.last (member?_eq_some_iff.1 rfl) ends)

theorem classify_follows_tags_stray :
    ErrorBody (Json.object strayMembers).text strayMembers ∧
      Reports strayMembers ["path", "not_found"] ∧
      ∀ retryAfter,
        kind (classify 409 retryAfter (Json.object strayMembers).text) = .notFound := by
  have formed : Formed (.object strayMembers) := by simp [strayMembers, strayError]
  have body : ErrorBody (Json.object strayMembers).text strayMembers := by
    refine ⟨?_, by decide, by simp [strayMembers]⟩
    rw [read?_text formed]
    rfl
  have reported : Reports strayMembers ["path", "not_found"] :=
    .present (by simp [strayMembers]) tagChain_strayError
  obtain ⟨tags, only, follows, -⟩ := classify_follows_tags body
  have same : ["path", "not_found"] = tags := (only _).1 reported
  refine ⟨body, reported, fun retryAfter => (follows 409 retryAfter).missing.2 ?_⟩
  rw [← same, Limited]
  decide

end Dropbox

end ChunkStore
