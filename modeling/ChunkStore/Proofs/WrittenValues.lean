import ChunkStore.Json.Document
import ChunkStore.Proofs.ScannedTexts
import ChunkStore.Proofs.WrittenNumerals

/-!
# Written values, read back

The compact text of a JSON value is read as the document that says the same, whether its
characters are written as they are or in ASCII alone. The scanner may stand in the middle of a
word or a number when the text of a value ends; the next mark, or the end of the document,
completes it. The builder goes from expecting a value to having it, and what is open around the
value stays as it is.
-/

namespace ChunkStore.Json

mutual

/-- What is known of a value when it is read: all its strings are texts. -/
def document : Json String → Document
  | .null => .null
  | .bool b => .bool b
  | .number n => .number n
  | .string s => .string (some s)
  | .array items => .array (documentItems items)
  | .object members => .object (documentMembers members)

def documentItems : List (Json String) → List Document
  | [] => []
  | item :: items => document item :: documentItems items

def documentMembers : List (String × Json String) → List (Option String × Document)
  | [] => []
  | (key, value) :: members => (some key, document value) :: documentMembers members

end

inductive Formed : Json String → Prop
  | null : Formed .null
  | bool (b : Bool) : Formed (.bool b)
  | number {n : Numeral} (h : n.Formed) : Formed (.number n)
  | string (s : String) : Formed (.string s)
  | array {items : List (Json String)} (h : ∀ item ∈ items, Formed item) : Formed (.array items)
  | object {members : List (String × Json String)} (h : ∀ member ∈ members, Formed member.2) :
      Formed (.object members)

attribute [simp] Formed.null Formed.bool Formed.string

@[simp] theorem formed_object_iff {members : List (String × Json String)} :
    Formed (.object members) ↔ ∀ member ∈ members, Formed member.2 where
  mp h := by
    cases h with
    | object h => exact h
  mpr := .object

variable {write : Char → List Char} {cs ds : List Char} {ts us : List Token} {c : Char}
  {scan next : Scan} {last : List Token} {token : Token}

/-! ## Tokens of a text -/

/-- Between tokens, a text makes these tokens, of which the last may still be incomplete. -/
def Makes (cs : List Char) (ts : List Token) : Prop :=
  ∃ here next last, Scans .between cs here next ∧ finish next = some last ∧ here ++ last = ts

theorem Scans.makes (h : Scans .between cs ts .between) : Makes cs ts :=
  ⟨ts, .between, [], h, rfl, List.append_nil ts⟩

def Marks (c : Char) (token : Token) : Prop :=
  start c = some (some token, .between) ∧ isLetter c = false ∧ isNumeralChar c = false

/-- A mark completes the token with which the scanner stands, and is one itself. -/
theorem Marks.step (h : Marks c token) (ends : finish scan = some last) :
    stepChar c scan = some (last ++ [token], .between) := by
  obtain ⟨starts, letter, numeral⟩ := h
  cases scan with
  | between =>
    cases ends
    simp [stepChar, starts]
  | word letters =>
    obtain ⟨word, known, rfl⟩ := Option.map_eq_some_iff.1 ends
    simp [stepChar, starts, letter, known]
  | numeral chars =>
    obtain ⟨n, known, rfl⟩ := Option.map_eq_some_iff.1 ends
    simp [stepChar, starts, numeral, known]
  | within pieces => cases ends
  | escaped pieces => cases ends
  | code pieces digits => cases ends

theorem Makes.mark (h : Makes cs ts) (mark : Marks c token) :
    Scans .between (cs ++ [c]) (ts ++ [token]) .between := by
  obtain ⟨here, next, last, scans, ends, rfl⟩ := h
  rw [List.append_assoc]
  exact scans.append (.single (mark.step ends))

theorem Makes.after (h : Scans .between cs ts .between) (h' : Makes ds us) :
    Makes (cs ++ ds) (ts ++ us) := by
  obtain ⟨here, next, last, scans, ends, rfl⟩ := h'
  refine ⟨ts ++ here, next, last, h.append scans, ends, ?_⟩
  exact List.append_assoc ..

theorem Makes.tokens? (h : Makes cs ts) : tokens? (cs.map .char) = some ts := by
  obtain ⟨here, next, last, scans, ends, rfl⟩ := h
  exact scans.tokensFrom [] ends

theorem makes_null : Makes "null".toList [.null] :=
  ⟨[], _, _, .quiet rfl (.quiet rfl (.quiet rfl (.quiet rfl (.nil _)))), rfl, rfl⟩

theorem makes_bool (b : Bool) : Makes (if b then "true" else "false").toList [.bool b] := by
  cases b with
  | true => exact ⟨[], _, _, .quiet rfl (.quiet rfl (.quiet rfl (.quiet rfl (.nil _)))), rfl, rfl⟩
  | false =>
    exact ⟨[], _, _, .quiet rfl (.quiet rfl (.quiet rfl (.quiet rfl (.quiet rfl (.nil _))))), rfl,
      rfl⟩

/-- What may begin a number begins nothing else. -/
theorem stepChar_numeral (h : (Text.isDigit c || c == '-') = true) :
    stepChar c .between = some ([], .numeral [c]) := by
  have others : ∀ d ∈ [' ', '\t', '\n', '\r', '[', ']', '\x7b', '\x7d', ':', ',', '"'], c ≠ d := by
    have none : ∀ d ∈ [' ', '\t', '\n', '\r', '[', ']', '\x7b', '\x7d', ':', ',', '"'],
        (Text.isDigit d || d == '-') = false := by simp [Text.isDigit]
    intro d hd same
    rw [same, none d hd] at h
    cases h
  simp only [List.forall_mem_cons] at others
  simp [stepChar, start, isSpace, others, h]

theorem scans_numeral (front : List Char) (h : ∀ c ∈ cs, isNumeralChar c = true) :
    Scans (.numeral front) cs [] (.numeral (cs.reverse ++ front)) := by
  induction cs generalizing front with
  | nil => exact .nil _
  | cons c cs ih =>
    have step : stepChar c (.numeral front) = some ([], .numeral (c :: front)) := by
      rw [stepChar, if_pos (h c (by simp))]
    rw [List.reverse_cons, List.append_assoc]
    exact .quiet step (ih (c :: front) fun d hd => h d (by simp [hd]))

theorem makes_number {n : Numeral} (h : n.Formed) : Makes n.render [.number n] := by
  obtain ⟨c, tail, written, first⟩ := Numeral.exists_head_render h
  have all := Numeral.isNumeralChar_of_mem_render h
  have known := Numeral.read?_render h
  rw [written] at all known ⊢
  have scans := scans_numeral [c] fun d hd => all d (List.mem_cons_of_mem _ hd)
  refine ⟨[], _, [.number n], .quiet (stepChar_numeral first) scans, ?_, rfl⟩
  rw [finish, List.reverse_append, List.reverse_reverse]
  exact congrArg _ known

/-! ## Documents of tokens -/

/-- The builder goes from one state to another by these tokens. -/
def Builds (b : Builder) (ts : List Token) (b' : Builder) : Prop :=
  ts.foldlM Builder.feed b = some b'

variable {b b' b'' : Builder} {e : Expect} {stack : List Frame}

theorem Builds.nil (b : Builder) : Builds b [] b := rfl

theorem Builds.cons (step : b.feed token = some b') (further : Builds b' ts b'') :
    Builds b (token :: ts) b'' := by
  rw [Builds, List.foldlM_cons, step]
  exact further

theorem Builds.append (h : Builds b ts b') (h' : Builds b' us b'') : Builds b (ts ++ us) b'' := by
  rw [Builds, List.foldlM_append, h]
  exact h'

def Ready (e : Expect) : Prop := e = .value ∨ e = .itemOrEnd

/-- Where a value may come next, the text is read as the document, and what is open around it
stays as it is. -/
def Reads (cs : List Char) (d : Document) : Prop :=
  ∃ ts, Makes cs ts ∧ ∀ e stack, Ready e → Builds ⟨e, stack⟩ ts ⟨.complete d, stack⟩

theorem feed_ready (ready : Ready e) (other : token ≠ .closeArray) :
    Builder.feed ⟨e, stack⟩ token = Builder.open? stack token := by
  cases ready with
  | inl value =>
    rw [value]
    rfl
  | inr item =>
    rw [item, Builder.feed]
    · rfl
    · exact fun _ _ _ same => other same

theorem Makes.reads {d : Document} (h : Makes cs [token])
    (known : Builder.scalar? token = some d) : Reads cs d := by
  refine ⟨[token], h, fun e stack ready => ?_⟩
  have step : Builder.feed ⟨e, stack⟩ token = some ⟨.complete d, stack⟩ := by
    rw [feed_ready ready (by rintro rfl; cases known)]
    cases token <;> cases known <;> rfl
  exact .cons step (.nil _)

/-! ## Parts between marks -/

/-- The builder around the parts of an array or an object: how it expects the first part and
the others, behind those that it has in reverse, and what the closing mark makes of them. -/
structure Enclosure (β : Type) where
  expecting : (first : Bool) → (seen : List β) → List Frame → Builder
  closing : Token
  closed : (seen : List β) → List Frame → Builder

def arrays : Enclosure Document where
  expecting first seen stack := ⟨if first then .itemOrEnd else .value, .array seen :: stack⟩
  closing := .closeArray
  closed seen stack := ⟨.complete (.array seen.reverse), stack⟩

def objects : Enclosure (Option String × Document) where
  expecting first seen stack := ⟨if first then .memberOrEnd else .key, .object seen :: stack⟩
  closing := .closeObject
  closed seen stack := ⟨.complete (.object seen.reverse), stack⟩

/-- The text is read as a part. -/
def Enclosure.Takes {β : Type} (E : Enclosure β) (cs : List Char) (part : β) : Prop :=
  ∃ ts, Makes cs ts ∧ ∀ first seen stack, ∃ mid, Builds (E.expecting first seen stack) ts mid ∧
    mid.feed .comma = some (E.expecting false (part :: seen) stack) ∧
    mid.feed E.closing = some (E.closed (part :: seen) stack)

def separated : List (List Char) → List Char
  | [] => []
  | [text] => text
  | text :: texts => text ++ ',' :: separated texts

theorem marks_comma : Marks ',' .comma := ⟨rfl, rfl, rfl⟩

theorem Enclosure.takes_separated {α β : Type} (E : Enclosure β) (text : α → List Char)
    (part : α → β) {parts : List α} (nonempty : parts ≠ [])
    (h : ∀ a ∈ parts, E.Takes (text a) (part a)) :
    ∃ ts, Makes (separated (parts.map text)) ts ∧ ∀ first seen stack,
      Builds (E.expecting first seen stack) (ts ++ [E.closing])
        (E.closed ((parts.map part).reverse ++ seen) stack) := by
  induction parts with
  | nil => exact absurd rfl nonempty
  | cons a parts ih =>
    obtain ⟨ts, makes, builds⟩ := h a (List.mem_cons_self ..)
    cases parts with
    | nil =>
      refine ⟨ts, makes, fun first seen stack => ?_⟩
      obtain ⟨mid, builds, -, closes⟩ := builds first seen stack
      exact builds.append (.cons closes (.nil _))
    | cons next parts =>
      obtain ⟨us, rest, further⟩ := ih (List.cons_ne_nil _ _)
        fun b hb => h b (List.mem_cons_of_mem _ hb)
      have whole := Makes.after (makes.mark marks_comma) rest
      rw [List.append_assoc] at whole
      refine ⟨ts ++ [Token.comma] ++ us, whole, fun first seen stack => ?_⟩
      obtain ⟨mid, builds, goes, -⟩ := builds first seen stack
      have later := (builds.append (.cons goes (.nil _))).append
        (further false (part a :: seen) stack)
      simpa only [List.map_cons, List.reverse_cons, List.append_assoc, List.cons_append,
        List.nil_append] using later

/-! ## Values -/

theorem documentItems_eq (items : List (Json String)) :
    documentItems items = items.map document := by
  induction items with
  | nil => rfl
  | cons item items ih => rw [documentItems, ih, List.map_cons]

def documentMember (member : String × Json String) : Option String × Document :=
  (some member.1, document member.2)

theorem documentMembers_eq (members : List (String × Json String)) :
    documentMembers members = members.map documentMember := by
  induction members with
  | nil => rfl
  | cons member members ih =>
    rw [documentMembers, ih, List.map_cons]
    rfl

def renderMember (member : String × Json String) : List Char :=
  quote member.1 ++ ':' :: render member.2

theorem renderItems_eq (items : List (Json String)) :
    renderItems items = separated (items.map render) := by
  match items with
  | [] => rfl
  | [item] => rfl
  | item :: next :: items =>
    exact congrArg (render item ++ ',' :: ·) (renderItems_eq (next :: items))

theorem renderMembers_eq (members : List (String × Json String)) :
    renderMembers members = separated (members.map renderMember) := by
  match members with
  | [] => rfl
  | [member] => rfl
  | member :: next :: members =>
    rw [renderMembers, renderMembers_eq (next :: members)]
    · rfl
    · exact nofun

theorem write_mark (hw : Writes write) (mark : c ∈ ['[', ']', '\x7b', '\x7d', ':', ',']) :
    write c = [c] := by
  have ascii : ∀ d ∈ ['[', ']', '\x7b', '\x7d', ':', ','], d.toNat < 0x80 := by simp
  exact hw.ascii (ascii c mark)

theorem flatMap_separated (hw : Writes write) (texts : List (List Char)) :
    (separated texts).flatMap write = separated (texts.map (·.flatMap write)) := by
  match texts with
  | [] => rfl
  | [text] => rfl
  | text :: next :: texts =>
    have comma : write ',' = [','] := write_mark hw (by simp)
    have rest := flatMap_separated hw (next :: texts)
    rw [separated, List.flatMap_append, List.flatMap_cons, comma, rest]
    · rfl
    · exact nofun

theorem Reads.item {d : Document} (h : Reads cs d) : arrays.Takes cs d := by
  obtain ⟨ts, makes, builds⟩ := h
  refine ⟨ts, makes, fun first seen stack => ?_⟩
  have ready : Ready (if first then .itemOrEnd else .value) := by
    cases first with
    | true => exact .inr rfl
    | false => exact .inl rfl
  exact ⟨_, builds _ (.array seen :: stack) ready, rfl, rfl⟩

theorem Reads.member (hw : Writes write) {d : Document} (h : Reads cs d) (key : String) :
    objects.Takes ((quote key).flatMap write ++ ':' :: cs) (some key, d) := by
  obtain ⟨ts, makes, builds⟩ := h
  have colon : Marks ':' .colon := ⟨rfl, rfl, rfl⟩
  have front := (scans_quote hw key).makes.mark colon
  have whole := Makes.after front makes
  rw [List.append_assoc] at whole
  refine ⟨_, whole, fun first seen stack => ?_⟩
  have opened : (objects.expecting first seen stack).feed (.string (some key)) =
      some ⟨.colon (some key), .object seen :: stack⟩ := by
    cases first with
    | true => rfl
    | false => rfl
  have value := builds .value (.member seen (some key) :: stack) (.inl rfl)
  exact ⟨_, .cons opened (.cons rfl value), rfl, rfl⟩

/-- Parts between an opening and a closing mark are a value. -/
theorem Enclosure.reads {β : Type} (E : Enclosure β) {opening closing : Char}
    {opens : Token} (first : Marks opening opens) (last : Marks closing E.closing)
    {value : List β → Document}
    (opened : ∀ e stack, Ready e →
      Builder.feed ⟨e, stack⟩ opens = some (E.expecting true [] stack))
    (closes : ∀ stack, (E.expecting true [] stack).feed E.closing =
      some ⟨.complete (value []), stack⟩)
    (closed : ∀ seen stack, E.closed seen stack = ⟨.complete (value seen.reverse), stack⟩)
    {α : Type} (text : α → List Char) (part : α → β) {parts : List α}
    (h : ∀ a ∈ parts, E.Takes (text a) (part a)) :
    Reads (opening :: separated (parts.map text) ++ [closing]) (value (parts.map part)) := by
  have start : Scans .between [opening] [opens] .between :=
    (Scans.nil .between).makes.mark first
  cases parts with
  | nil =>
    have ends : Scans .between [closing] [E.closing] .between :=
      (Scans.nil .between).makes.mark last
    refine ⟨[opens, E.closing], (start.append ends).makes, fun e stack ready => ?_⟩
    exact .cons (opened e stack ready) (.cons (closes stack) (.nil _))
  | cons a parts =>
    obtain ⟨ts, makes, builds⟩ := E.takes_separated text part (List.cons_ne_nil a parts) h
    refine ⟨opens :: (ts ++ [E.closing]), (start.append (makes.mark last)).makes,
      fun e stack ready => ?_⟩
    have whole := builds true [] stack
    rw [List.append_nil, closed, List.reverse_reverse] at whole
    exact .cons (opened e stack ready) whole

/-- The text of a value is read as this value, however a writer chooses between a character and
its code units. -/
theorem reads_render (hw : Writes write) {j : Json String} (h : Formed j) :
    Reads ((render j).flatMap write) (document j) := by
  have word (cs : List Char) (ascii : ∀ c ∈ cs, c.toNat < 0x80) : cs.flatMap write = cs :=
    hw.flatMap_ascii ascii
  induction h with
  | null =>
    rw [render, word _ (by simp)]
    exact makes_null.reads rfl
  | bool b =>
    rw [render, word _ (by cases b <;> simp)]
    exact (makes_bool b).reads rfl
  | @number n formed =>
    rw [render, word]
    · exact (makes_number formed).reads rfl
    · intro c hc
      exact (printed_of_isNumeralChar (Numeral.isNumeralChar_of_mem_render formed c hc)).ascii
  | string s =>
    rw [render]
    exact (scans_quote hw s).makes.reads rfl
  | @array items _ ih =>
    have openMark : write '[' = ['['] := write_mark hw (by simp)
    have closeMark : write ']' = [']'] := write_mark hw (by simp)
    have written : (render (.array items)).flatMap write =
        '[' :: separated (items.map fun item => (render item).flatMap write) ++ [']'] := by
      rw [render, renderItems_eq, List.flatMap_append, List.flatMap_cons, flatMap_separated hw,
        List.map_map, List.flatMap_singleton, openMark, closeMark]
      rfl
    rw [written, document, documentItems_eq]
    exact arrays.reads ⟨rfl, rfl, rfl⟩ ⟨rfl, rfl, rfl⟩
      (fun e stack ready => feed_ready ready (by decide)) (fun _ => rfl) (fun _ _ => rfl) _ _
      fun item hi => (ih item hi).item
  | @object members _ ih =>
    have openMark : write '\x7b' = ['\x7b'] := write_mark hw (by simp)
    have closeMark : write '\x7d' = ['\x7d'] := write_mark hw (by simp)
    have colon : write ':' = [':'] := write_mark hw (by simp)
    have written : (render (.object members)).flatMap write =
        '\x7b' :: separated (members.map fun member =>
          (quote member.1).flatMap write ++ ':' :: (render member.2).flatMap write) ++
            ['\x7d'] := by
      rw [render, renderMembers_eq, List.flatMap_append, List.flatMap_cons, flatMap_separated hw,
        List.map_map, List.flatMap_singleton, openMark, closeMark]
      simp only [Function.comp_def, renderMember, List.flatMap_append, List.flatMap_cons, colon]
      rfl
    rw [written, document, documentMembers_eq]
    exact objects.reads ⟨rfl, rfl, rfl⟩ ⟨rfl, rfl, rfl⟩
      (fun e stack ready => feed_ready ready (by decide)) (fun _ => rfl) (fun _ _ => rfl) _ _
      fun member hm => (ih member hm).member hw member.1

/-- A value is read back from its text, whether its characters are written as they are or in
ASCII. -/
theorem read?_render (hw : Writes write) {j : Json String} (h : Formed j) :
    read? (String.ofList ((render j).flatMap write)) = some (document j) := by
  obtain ⟨ts, makes, builds⟩ := reads_render hw h
  have built : ts.foldlM Builder.feed {} = some ⟨.complete (document j), []⟩ :=
    builds .value [] (.inl rfl)
  rw [read?, readGlyphs?, Text.glyphsOf, String.toList_ofList, makes.tokens?]
  simp only [Option.bind_eq_bind, Option.bind_some, build?, built]
  rfl

theorem read?_text {j : Json String} (h : Formed j) : read? j.text = some (document j) := by
  have back := read?_render (fun _ => .inl rfl) h
  rwa [List.flatMap_singleton'] at back

theorem read?_asciiText {j : Json String} (h : Formed j) :
    read? j.asciiText = some (document j) :=
  read?_render (fun _ => .inr rfl) h

end ChunkStore.Json
