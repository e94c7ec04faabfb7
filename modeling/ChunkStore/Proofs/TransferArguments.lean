import ChunkStore.Dropbox
import ChunkStore.Proofs.StorageOperations
import ChunkStore.Proofs.WrittenValues

/-!
# Arguments of transfers

An upload and a download carry their argument as JSON in a header of the request. The text of
a value holds printed characters of ASCII, and besides them only characters of its strings that
JSON leaves as they are. Written in ASCII, these become code units, except for the one
character of ASCII that is neither printed nor escaped, U+007F. So an argument can be read back
from its header, and the request is refused before it is sent just where U+007F stands in the
path.
-/

namespace ChunkStore

namespace Json

variable {j : Json String} {c d : Char} {texts : List (List Char)}

/-! ## Characters of a text -/

/-- The character stands in a string of the value, or in a key. -/
inductive Contains (c : Char) : Json String → Prop
  | string {s : String} (h : c ∈ s.toList) : Contains c (.string s)
  | item {items : List (Json String)} {item : Json String} (mem : item ∈ items)
      (h : Contains c item) : Contains c (.array items)
  | key {members : List (String × Json String)} {member : String × Json String}
      (mem : member ∈ members) (h : c ∈ member.1.toList) : Contains c (.object members)
  | value {members : List (String × Json String)} {member : String × Json String}
      (mem : member ∈ members) (h : Contains c member.2) : Contains c (.object members)

@[simp] theorem contains_string_iff {s : String} : Contains c (.string s) ↔ c ∈ s.toList where
  mp h := by
    cases h with
    | string h => exact h
  mpr := .string

@[simp] theorem not_contains_bool (b : Bool) : ¬Contains c (.bool b) := nofun

theorem contains_object_iff {members : List (String × Json String)} :
    Contains c (.object members) ↔
      ∃ member ∈ members, c ∈ member.1.toList ∨ Contains c member.2 := by
  constructor
  · intro h
    cases h with
    | key mem h => exact ⟨_, mem, .inl h⟩
    | value mem h => exact ⟨_, mem, .inr h⟩
  · intro h
    obtain ⟨member, mem, key | value⟩ := h
    · exact .key mem key
    · exact .value mem value

theorem mem_separated (h : c ∈ separated texts) : c = ',' ∨ ∃ text ∈ texts, c ∈ text := by
  induction texts with
  | nil => cases h
  | cons text texts ih =>
    cases texts with
    | nil => exact .inr ⟨text, List.mem_singleton_self text, h⟩
    | cons next texts =>
      rw [separated, List.mem_append, List.mem_cons] at h
      · rcases h with here | comma | later
        · exact .inr ⟨text, List.mem_cons_self .., here⟩
        · exact .inl comma
        · obtain comma | ⟨other, mem, inside⟩ := ih later
          · exact .inl comma
          · exact .inr ⟨other, List.mem_cons_of_mem _ mem, inside⟩
      · exact List.cons_ne_nil _ _

theorem mem_separated_of_mem {text : List Char} (mem : text ∈ texts) (h : c ∈ text) :
    c ∈ separated texts := by
  induction texts with
  | nil => cases mem
  | cons first texts ih =>
    cases texts with
    | nil =>
      rw [List.mem_singleton.1 mem] at h
      exact h
    | cons next texts =>
      rw [separated, List.mem_append, List.mem_cons]
      · cases List.mem_cons.1 mem with
        | inl same => exact .inl (same ▸ h)
        | inr later => exact .inr (.inr (ih later))
      · exact List.cons_ne_nil _ _

theorem printed_of_mem_escape (h : d ∈ escape c) : Text.Printed d ∨ d = c ∧ 0x20 ≤ c.toNat := by
  have written := escaped_escape c
  generalize escape c = cs at h written
  cases written with
  | letter known other printed =>
    rcases List.mem_cons.1 h with rfl | last
    · exact .inl (by decide)
    · rw [List.mem_singleton.1 last]
      exact .inl printed
  | digits control => exact .inl (printed_of_mem_code h)
  | whole quote backslash printed =>
    exact .inr ⟨List.mem_singleton.1 h, Nat.le_of_not_lt printed⟩

theorem printed_of_mem_quote {s : String} (h : c ∈ quote s) :
    Text.Printed c ∨ c ∈ s.toList ∧ 0x20 ≤ c.toNat := by
  rw [quote, List.cons_append, List.mem_cons, List.mem_append, List.mem_singleton] at h
  rcases h with rfl | inside | rfl
  · exact .inl (by decide)
  · obtain ⟨d, mem, written⟩ := List.mem_flatMap.1 inside
    cases printed_of_mem_escape written with
    | inl printed => exact .inl printed
    | inr same => exact .inr ⟨same.1 ▸ mem, same.1 ▸ same.2⟩
  · exact .inl (by decide)

/-- Between two marks that are printed there is nothing else that is not in one of the texts. -/
theorem printed_of_mem_enclosed {opening closing : Char} (first : Text.Printed opening)
    (last : Text.Printed closing) (h : c ∈ opening :: separated texts ++ [closing]) :
    Text.Printed c ∨ ∃ text ∈ texts, c ∈ text := by
  rw [List.cons_append, List.mem_cons, List.mem_append, List.mem_singleton] at h
  rcases h with rfl | inside | rfl
  · exact .inl first
  · cases mem_separated inside with
    | inl comma =>
      rw [comma]
      exact .inl (by decide)
    | inr inside => exact .inr inside
  · exact .inl last

theorem mem_enclosed {opening closing : Char} {text : List Char} (mem : text ∈ texts)
    (h : c ∈ text) : c ∈ opening :: separated texts ++ [closing] :=
  List.mem_cons_of_mem _ (List.mem_append_left _ (mem_separated_of_mem mem h))

/-- Whatever is not printed in the text of a value comes from one of its strings, and no control
character does. -/
theorem printed_of_mem_render (formed : Formed j) (h : c ∈ render j) :
    Text.Printed c ∨ Contains c j ∧ 0x20 ≤ c.toNat := by
  induction formed with
  | null =>
    have printed : ∀ c ∈ "null".toList, Text.Printed c := by simp [Text.Printed]
    exact .inl (printed c h)
  | bool b =>
    have printed : ∀ c ∈ (if b then "true" else "false").toList, Text.Printed c := by
      cases b <;> simp [Text.Printed]
    exact .inl (printed c h)
  | number formed =>
    exact .inl (printed_of_isNumeralChar (Numeral.isNumeralChar_of_mem_render formed c h))
  | string s => exact (printed_of_mem_quote h).imp_right (And.imp_left .string)
  | array _ ih =>
    rw [render, renderItems_eq] at h
    cases printed_of_mem_enclosed (by decide) (by decide) h with
    | inl printed => exact .inl printed
    | inr inside =>
      obtain ⟨text, mem, inside⟩ := inside
      obtain ⟨item, hi, rfl⟩ := List.mem_map.1 mem
      exact (ih item hi inside).imp_right (And.imp_left (.item hi))
  | object _ ih =>
    rw [render, renderMembers_eq] at h
    cases printed_of_mem_enclosed (by decide) (by decide) h with
    | inl printed => exact .inl printed
    | inr inside =>
      obtain ⟨text, mem, inside⟩ := inside
      obtain ⟨member, hm, rfl⟩ := List.mem_map.1 mem
      rw [renderMember, List.mem_append, List.mem_cons] at inside
      rcases inside with key | rfl | value
      · exact (printed_of_mem_quote key).imp_right (And.imp_left (.key hm))
      · exact .inl (by decide)
      · exact (ih member hm value).imp_right (And.imp_left (.value hm))

theorem mem_quote {s : String} (plain : escape c = [c]) (h : c ∈ s.toList) : c ∈ quote s := by
  have inside : c ∈ s.toList.flatMap escape :=
    List.mem_flatMap.2 ⟨c, h, plain ▸ List.mem_singleton_self c⟩
  exact List.mem_cons_of_mem _ (List.mem_append_left _ inside)

theorem mem_render (plain : escape c = [c]) (h : Contains c j) : c ∈ render j := by
  induction h with
  | string h => exact mem_quote plain h
  | item mem _ ih =>
    rw [render, renderItems_eq]
    exact mem_enclosed (List.mem_map_of_mem mem) ih
  | @key members member mem h =>
    have here : c ∈ renderMember member := List.mem_append_left _ (mem_quote plain h)
    rw [render, renderMembers_eq]
    exact mem_enclosed (List.mem_map_of_mem mem) here
  | @value members member mem _ ih =>
    have here : c ∈ renderMember member :=
      List.mem_append_right _ (List.mem_cons_of_mem _ ih)
    rw [render, renderMembers_eq]
    exact mem_enclosed (List.mem_map_of_mem mem) here

/-! ## Characters of a text in ASCII -/

theorem ascii_or_printed_of_mem_asciiEscape (h : d ∈ asciiEscape c) :
    d = c ∧ c.toNat < 0x80 ∨ Text.Printed d := by
  unfold asciiEscape at h
  split at h
  · rename_i ascii
    exact .inl ⟨List.mem_singleton.1 h, ascii⟩
  · obtain ⟨u, -, written⟩ := List.mem_flatMap.1 h
    exact .inr (printed_of_mem_code written)

theorem mem_asciiText (h : d ∈ j.asciiText.toList) :
    d ∈ render j ∧ d.toNat < 0x80 ∨ Text.Printed d := by
  rw [asciiText, String.toList_ofList] at h
  obtain ⟨c, mem, written⟩ := List.mem_flatMap.1 h
  cases ascii_or_printed_of_mem_asciiEscape written with
  | inl same => exact .inl (same.1 ▸ ⟨mem, same.2⟩)
  | inr printed => exact .inr printed

theorem ascii_of_mem_asciiText (h : c ∈ j.asciiText.toList) : c.toNat < 0x80 := by
  cases mem_asciiText h with
  | inl ascii => exact ascii.2
  | inr printed => exact printed.ascii

/-- The only character that may stand in the text and is not printed is U+007F. -/
theorem printed_or_delete (formed : Formed j) (h : c ∈ j.asciiText.toList) :
    Text.Printed c ∨ c = '\x7f' ∧ Contains c j := by
  cases mem_asciiText h with
  | inr printed => exact .inl printed
  | inl inside =>
    cases printed_of_mem_render formed inside.1 with
    | inl printed => exact .inl printed
    | inr string =>
      -- The text is ASCII by now, so above the printed characters there is only one left.
      by_cases below : c.toNat < 0x7F
      · exact .inl ⟨string.2, below⟩
      · have code : c.toNat = 0x7F := by omega
        have same : c = '\x7f' := by rw [← Char.ofNat_toNat c, code]
        exact .inr ⟨same, string.1⟩

theorem delete_mem_asciiText (h : Contains '\x7f' j) : '\x7f' ∈ j.asciiText.toList := by
  rw [asciiText, String.toList_ofList]
  exact List.mem_flatMap.2 ⟨'\x7f', mem_render rfl h, List.mem_singleton_self _⟩

theorem forall_printed_iff (formed : Formed j) :
    (∀ c ∈ j.asciiText.toList, Text.Printed c) ↔ ¬Contains '\x7f' j := by
  constructor
  · intro printed inside
    exact absurd (printed _ (delete_mem_asciiText inside)) (by decide)
  · intro outside c hc
    obtain printed | ⟨rfl, inside⟩ := printed_or_delete formed hc
    · exact printed
    · exact absurd inside outside

end Json

namespace Http

theorem isSendable_of_printed {value : String} (h : ∀ c ∈ value.toList, Text.Printed c) :
    isSendable value = true := by
  rw [isSendable, List.all_eq_true]
  intro c hc
  have low := (h c hc).1
  have high : c.toNat ≠ 0x7F := Nat.ne_of_lt (h c hc).2
  simp [low, high]

theorem not_isSendable_of_delete {value : String} (h : '\x7f' ∈ value.toList) :
    isSendable value = false := by
  rw [isSendable, List.all_eq_false]
  exact ⟨'\x7f', h, by decide⟩

theorem isSendable_repr (n : Nat) : isSendable n.repr = true := by
  apply isSendable_of_printed
  intro c hc
  rw [Nat.toList_repr] at hc
  exact Text.printed_of_isDigit
    (Nat.isDigit_of_mem_toDigits (by decide : 0 < 10) (by decide : 10 ≤ 10) hc)

/-! ## Requests -/

/-- The program begins by sending a request with this header. -/
def Sends {α : Type} (header : String × String) (p : Program interface α) : Prop :=
  ∃ request next, p = .ask (.send request) next ∧ header ∈ request.headers

/-- The program fails before it asks for anything, because of a header. -/
def Refused {α : Type} (p : Program interface α) : Prop :=
  p = .failed (.network "a header holds a control character")

def Request.Sendable (r : Request) : Prop := ∀ header ∈ r.headers, isSendable header.2 = true

/-- A request is sent just where all its headers can be, and is refused where they cannot. -/
theorem sends_post_iff {α : Type} {r : Request} {header : String × String}
    (mem : header ∈ r.headers) (f : Response → Program interface α) :
    (Sends header ((post r).bind f) ↔ r.Sendable) ∧
      (Refused ((post r).bind f) ↔ ¬r.Sendable) := by
  have all : (r.headers.all fun header => isSendable header.2) = true ↔ r.Sendable :=
    List.all_eq_true
  unfold post
  split
  · rename_i sendable
    have sends : Sends header (.ask (.send r) fun reply => (Program.ofExcept reply).bind f) :=
      ⟨r, _, rfl, mem⟩
    have unrefused : ¬Refused (.ask (.send r) fun reply => (Program.ofExcept reply).bind f) := by
      intro refused
      cases refused
    exact ⟨iff_of_true sends (all.1 sendable),
      iff_of_false unrefused (not_not_intro (all.1 sendable))⟩
  · rename_i sendable
    have unsent : ¬Sends header
        (.failed (.network "a header holds a control character") : Program interface α) := by
      intro sends
      obtain ⟨request, next, same, -⟩ := sends
      cases same
    exact ⟨iff_of_false unsent (mt all.2 sendable), iff_of_true rfl (mt all.2 sendable)⟩

def Carries (header : String × String) : Call → Prop
  | .send r => header ∈ r.headers
  | .clock | .sleepUntil _ => True

theorem asks_post {r : Request} {header : String × String} (mem : header ∈ r.headers) :
    (post r).Asks (Carries header) := by
  unfold post
  split
  · exact ⟨mem, fun reply => Program.asks_ofExcept reply⟩
  · trivial

end Http

namespace Dropbox

open Json

variable (d : Dropbox) (path : String) (size : Nat) (body : Source)

theorem formed_uploadArg : Formed (uploadArg path) := by simp [uploadArg]

theorem formed_downloadArg : Formed (downloadArg path) := by simp [downloadArg]

theorem contains_uploadArg_iff :
    Contains '\x7f' (uploadArg path) ↔ '\x7f' ∈ (apiPath path).toList := by
  simp [uploadArg, contains_object_iff]

theorem contains_downloadArg_iff :
    Contains '\x7f' (downloadArg path) ↔ '\x7f' ∈ (apiPath path).toList := by
  simp [downloadArg, contains_object_iff]

def argHeader (arg : Json String) : String × String := ("dropbox-api-arg", arg.asciiText)

theorem asks_transfer (endpoint : String) (arg : Json String) (headers : List (String × String)) :
    (d.transfer endpoint arg headers body).Asks (Http.Carries (argHeader arg)) := by
  apply (Http.asks_post (by simp [argHeader])).bind
  intro response
  exact Program.asks_ofExcept _

/-- An argument is ASCII in its header, whatever characters the path is made of, and is read
back from there with the path and every other member. All that a transfer sends carries this
header. -/
theorem args_read_back :
    (∀ c ∈ (uploadArg path).asciiText.toList, c.toNat < 0x80) ∧
    (∀ c ∈ (downloadArg path).asciiText.toList, c.toNat < 0x80) ∧
    read? (uploadArg path).asciiText = some (.object [
      (some "path", .string (some (apiPath path))), (some "mode", .string (some "overwrite")),
      (some "autorename", .bool false), (some "mute", .bool true)]) ∧
    read? (downloadArg path).asciiText =
      some (.object [(some "path", .string (some (apiPath path)))]) ∧
    (d.perform (.upload path size body)).Asks (Http.Carries (argHeader (uploadArg path))) ∧
    (d.perform (.download path)).Asks (Http.Carries (argHeader (downloadArg path))) := by
  refine ⟨fun _ hc => ascii_of_mem_asciiText hc, fun _ hc => ascii_of_mem_asciiText hc,
    read?_asciiText (formed_uploadArg path), read?_asciiText (formed_downloadArg path), ?_, ?_⟩
  · apply (asks_transfer d body _ _ _).bind
    intro response
    trivial
  · apply (asks_transfer d _ _ _ _).bind
    intro response
    split <;> trivial

/-! ## Refused arguments -/

/-- The argument in its header is between space and U+007F, and below it just where the path
holds no U+007F. -/
theorem range_of_arg {arg : Json String} (formed : Formed arg)
    (contains : Contains '\x7f' arg ↔ '\x7f' ∈ (apiPath path).toList) :
    (∀ c ∈ arg.asciiText.toList, 0x20 ≤ c.toNat ∧ c.toNat ≤ 0x7F) ∧
    ((∀ c ∈ arg.asciiText.toList, 0x20 ≤ c.toNat ∧ c.toNat ≤ 0x7E) ↔
      '\x7f' ∉ (apiPath path).toList) := by
  have printed : (∀ c ∈ arg.asciiText.toList, 0x20 ≤ c.toNat ∧ c.toNat ≤ 0x7E) ↔
      ∀ c ∈ arg.asciiText.toList, Text.Printed c :=
    forall₂_congr fun _ _ => and_congr_right fun _ => Nat.lt_succ_iff.symm
  rw [printed, forall_printed_iff formed, contains]
  refine ⟨fun c hc => ?_, Iff.rfl⟩
  obtain printed | ⟨rfl, -⟩ := printed_or_delete formed hc
  · exact ⟨printed.1, Nat.le_of_lt printed.2⟩
  · decide

theorem isSendable_arg_iff {arg : Json String} (formed : Formed arg) :
    Http.isSendable arg.asciiText = true ↔ ¬Contains '\x7f' arg := by
  constructor
  · intro sendable inside
    rw [Http.not_isSendable_of_delete (delete_mem_asciiText inside)] at sendable
    cases sendable
  · intro outside
    exact Http.isSendable_of_printed ((forall_printed_iff formed).2 outside)

/-- The token can be sent, and so can the path in an argument. -/
def CanSend (d : Dropbox) (path : String) : Prop :=
  Http.isSendable d.authorization.2 = true ∧ '\x7f' ∉ (apiPath path).toList

theorem transfer_sends_iff {α : Type} (endpoint : String) {arg : Json String}
    (formed : Formed arg) (contains : Contains '\x7f' arg ↔ '\x7f' ∈ (apiPath path).toList)
    {headers : List (String × String)} (rest : ∀ header ∈ headers, Http.isSendable header.2 = true)
    (f : Http.Response → Program Http.interface α) :
    (Http.Sends (argHeader arg) ((d.transfer endpoint arg headers body).bind f) ↔
      d.CanSend path) ∧
    (Http.Refused ((d.transfer endpoint arg headers body).bind f) ↔ ¬d.CanSend path) := by
  rw [transfer, Program.bind_eq, Program.bind_assoc]
  have sendable (r : Http.Request) (h : r.headers = [d.authorization, argHeader arg] ++ headers) :
      r.Sendable ↔ d.CanSend path := by
    rw [Http.Request.Sendable, h, List.forall_mem_append, and_iff_left rest, CanSend, ← contains,
      ← isSendable_arg_iff formed]
    simp [argHeader]
  have posted := sendable ⟨d.contentUrl ++ "/" ++ endpoint,
    [d.authorization, argHeader arg] ++ headers, body⟩ rfl
  rw [← posted]
  have carried : argHeader arg ∈ [d.authorization, argHeader arg] ++ headers := by simp
  exact Http.sends_post_iff carried _

/-- No character of an argument in its header is a control character but U+007F, and this only
if it stands in the path. A transfer whose path holds it is refused before anything is sent;
all others are sent, if the token can be. -/
theorem transfers_sent_iff :
    (∀ arg ∈ [uploadArg path, downloadArg path],
      (∀ c ∈ arg.asciiText.toList, 0x20 ≤ c.toNat ∧ c.toNat ≤ 0x7F) ∧
      ((∀ c ∈ arg.asciiText.toList, 0x20 ≤ c.toNat ∧ c.toNat ≤ 0x7E) ↔
        '\x7f' ∉ (apiPath path).toList)) ∧
    ((Http.Sends (argHeader (uploadArg path)) (d.perform (.upload path size body)) ↔
        d.CanSend path) ∧
      (Http.Refused (d.perform (.upload path size body)) ↔ ¬d.CanSend path)) ∧
    ((Http.Sends (argHeader (downloadArg path)) (d.perform (.download path)) ↔ d.CanSend path) ∧
      (Http.Refused (d.perform (.download path)) ↔ ¬d.CanSend path)) := by
  have upload := contains_uploadArg_iff path
  have download := contains_downloadArg_iff path
  refine ⟨List.forall_mem_cons.2 ⟨?_, List.forall_mem_singleton.2 ?_⟩, ?_, ?_⟩
  · exact range_of_arg path (formed_uploadArg path) upload
  · exact range_of_arg path (formed_downloadArg path) download
  · have headers : ∀ header ∈ [("content-type", "application/octet-stream"),
        ("content-length", size.repr)], Http.isSendable header.2 = true := by
      have kind : Http.isSendable "application/octet-stream" = true := by decide
      simp [kind, Http.isSendable_repr]
    exact transfer_sends_iff d path body _ (formed_uploadArg path) upload headers _
  · exact transfer_sends_iff d path _ _ (formed_downloadArg path) download (by simp) _

/-- With U+007F in its path an upload holds a control character in its argument. It is refused,
though its token can be sent. -/
theorem upload_refused_delete :
    ¬(∀ c ∈ (uploadArg "/a\x7f").asciiText.toList, 0x20 ≤ c.toNat ∧ c.toNat ≤ 0x7E) ∧
    Http.isSendable (authorization { token := "token" }).2 = true ∧
    perform { token := "token" } (.upload "/a\x7f" 1 (.ofBytes [0x78])) =
      .failed (.network "a header holds a control character") :=
  have inside : '\x7f' ∈ (uploadArg "/a\x7f").asciiText.toList := by decide +kernel
  ⟨fun printed => absurd (printed _ inside).2 (by decide), by decide +kernel, rfl⟩

end Dropbox

end ChunkStore
