import ChunkStore.Transfer

/-!
# Blocks of a transfer

An upload is cut into blocks of one size, of which only the last may be shorter, and reading a
stream puts its blocks together again. Reading takes one block after the other, so it is also
described as an execution that consumes the stream: the description says what is left of the
stream when the reading ends, which for a stream that breaks is what stands behind the break.
-/

namespace ChunkStore

namespace Source

variable {content : Bytes} {blocks : List Bytes}

/-! ## Cutting -/

@[simp] theorem cut_nil : cut [] = [] := by
  unfold cut
  exact if_pos rfl

theorem cut_of_ne_nil (h : content ≠ []) :
    cut content = content.take blockSize :: cut (content.drop blockSize) := by
  rw [cut, if_neg h]

theorem cut_eq_nil_iff : cut content = [] ↔ content = [] := by
  constructor
  · intro none
    cases content with
    | nil => rfl
    | cons byte rest =>
      rw [cut_of_ne_nil (List.cons_ne_nil byte rest)] at none
      cases none
  · rintro rfl
    exact cut_nil

theorem ne_nil_of_mem_cut {block : Bytes} (h : block ∈ cut content) : block ≠ [] := by
  induction content using cut.induct with
  | case1 => simp at h
  | case2 content some ih =>
    rw [cut_of_ne_nil some] at h
    rcases List.mem_cons.1 h with rfl | later
    · have long := List.length_pos_iff.2 some
      apply List.ne_nil_of_length_pos
      rw [List.length_take, blockSize]
      omega
    · exact ih later

theorem length_cut (content : Bytes) :
    (cut content).length = (content.length + (blockSize - 1)) / blockSize := by
  induction content using cut.induct with
  | case1 => simp [blockSize]
  | case2 content some ih =>
    have long := List.length_pos_iff.2 some
    rw [cut_of_ne_nil some, List.length_cons, ih, List.length_drop]
    simp only [blockSize]
    omega

/-- Only the last block may be short. -/
theorem length_of_mem_dropLast_cut {block : Bytes} (h : block ∈ (cut content).dropLast) :
    block.length = blockSize := by
  induction content using cut.induct with
  | case1 => simp at h
  | case2 content some ih =>
    rw [cut_of_ne_nil some] at h
    by_cases last : cut (content.drop blockSize) = []
    · simp [last] at h
    · rw [List.dropLast_cons_of_ne_nil last] at h
      rcases List.mem_cons.1 h with rfl | later
      · -- A block that others follow is full: what is left behind it is not empty.
        have more : content.drop blockSize ≠ [] := fun none => last (cut_eq_nil_iff.2 none)
        have long := List.length_pos_iff.2 more
        rw [List.length_drop] at long
        rw [List.length_take]
        omega
      · exact ih later

theorem flatten_take_cut (content : Bytes) (k : Nat) :
    ((cut content).take k).flatten = content.take (k * blockSize) := by
  induction k generalizing content with
  | zero => simp
  | succ k ih =>
    by_cases none : content = []
    · simp [none]
    · rw [cut_of_ne_nil none, List.take_succ_cons, List.flatten_cons, ih, Nat.succ_mul,
        Nat.add_comm, List.take_add]

theorem getElem?_cut (content : Bytes) (k : Nat) (h : k * blockSize < content.length) :
    (cut content)[k]? = some ((content.drop (k * blockSize)).take blockSize) := by
  induction k generalizing content with
  | zero =>
    have some : content ≠ [] := List.ne_nil_of_length_pos (by omega)
    simp [cut_of_ne_nil some]
  | succ k ih =>
    have some : content ≠ [] := List.ne_nil_of_length_pos (by omega)
    rw [Nat.succ_mul] at h ⊢
    rw [cut_of_ne_nil some, List.getElem?_cons_succ, ih _ (by rw [List.length_drop]; omega),
      List.drop_drop, Nat.add_comm]

theorem map_fst_scheduleFrom (t : Throttle) (now : Millis) (blocks : List Bytes) :
    (scheduleFrom t now (blocks.map .ok)).map Prod.fst = blocks.map .ok := by
  induction blocks generalizing t now with
  | nil => rfl
  | cons block blocks ih => simp [scheduleFrom, ih]

/-! ## Reading -/

/-- A reader takes the blocks of a stream one after the other and adds each to what it has
gathered. It ends at the end of the stream or at the first failure. `untaken` is what stands
in the stream behind the place where it ends. -/
inductive CopyExec : (supply own : Throttle) → Millis → (gathered : Bytes) →
    (stream : List (Except Failure Bytes)) → (result : Except Failure Bytes) →
    (finished : Millis) → (untaken : List (Except Failure Bytes)) → Prop
  | ended (supply own : Throttle) (now : Millis) (gathered : Bytes) :
      CopyExec supply own now gathered [] (.ok gathered) now []
  | broken (supply own : Throttle) (now : Millis) (gathered : Bytes) (e : Failure)
      (rest : List (Except Failure Bytes)) :
      CopyExec supply own now gathered (.error e :: rest) (.error e) now rest
  | taken {supply own supply' own' : Throttle} {now came kept finished : Millis}
      {gathered block : Bytes} {rest untaken : List (Except Failure Bytes)}
      {result : Except Failure Bytes} :
      supply.consume block.length now = (supply', came) →
      own.consume block.length came = (own', kept) →
      CopyExec supply' own' kept (gathered ++ block) rest result finished untaken →
      CopyExec supply own now gathered (.ok block :: rest) result finished untaken

section Exec

variable {supply own : Throttle} {now finished : Millis} {gathered : Bytes}
  {stream untaken : List (Except Failure Bytes)} {result : Except Failure Bytes}

theorem map_gathered (gathered block : Bytes) (result : Except Failure Bytes) :
    (result.map (block ++ ·)).map (gathered ++ ·) = result.map (gathered ++ block ++ ·) := by
  cases result with
  | error e => rfl
  | ok data => simp [Except.map]

theorem copyFrom_exec (supply own : Throttle) (now : Millis) (gathered : Bytes)
    (stream : List (Except Failure Bytes)) :
    ∃ untaken, CopyExec supply own now gathered stream
      ((copyFrom supply own now stream).1.map (gathered ++ ·)) (copyFrom supply own now stream).2
      untaken := by
  induction stream generalizing supply own now gathered with
  | nil =>
    refine ⟨[], ?_⟩
    simp only [copyFrom, Except.map, List.append_nil]
    exact .ended supply own now gathered
  | cons head rest ih =>
    cases head with
    | error e => exact ⟨rest, .broken supply own now gathered e rest⟩
    | ok block =>
      obtain ⟨untaken, exec⟩ := ih (supply.consume block.length now).1
        (own.consume block.length (supply.consume block.length now).2).1
        (own.consume block.length (supply.consume block.length now).2).2 (gathered ++ block)
      rw [← map_gathered] at exec
      exact ⟨untaken, .taken rfl rfl exec⟩

/-- No other execution is possible. -/
theorem CopyExec.result_eq (h : CopyExec supply own now gathered stream result finished untaken) :
    result = (copyFrom supply own now stream).1.map (gathered ++ ·) ∧
      finished = (copyFrom supply own now stream).2 := by
  induction h with
  | ended => simp [copyFrom, Except.map]
  | broken => exact ⟨rfl, rfl⟩
  | taken came kept _ ih =>
    simp only [copyFrom, came, kept, map_gathered]
    exact ih

/-- What an execution ends with tells what the stream was: whole, with nothing left behind, or
broken, with all behind the first failure left where it was. -/
theorem CopyExec.stream_eq (h : CopyExec supply own now gathered stream result finished untaken) :
    (∀ data, result = .ok data → untaken = [] ∧
      ∃ blocks : List Bytes, stream = blocks.map .ok ∧ data = gathered ++ blocks.flatten) ∧
    ∀ e, result = .error e →
      ∃ blocks : List Bytes, stream = blocks.map .ok ++ .error e :: untaken := by
  induction h with
  | ended supply own now gathered =>
    refine ⟨fun data same => ⟨rfl, [], rfl, ?_⟩, nofun⟩
    simpa using (Except.ok.inj same).symm
  | broken supply own now gathered e rest =>
    refine ⟨nofun, fun e' same => ⟨[], ?_⟩⟩
    rw [Except.error.inj same]
    rfl
  | @taken _ _ _ _ _ _ _ _ gathered block rest untaken result _ _ _ ih =>
    constructor
    · intro data same
      obtain ⟨none, blocks, later, whole⟩ := ih.1 data same
      exact ⟨none, block :: blocks, by rw [later]; rfl, by simp [whole]⟩
    · intro e same
      obtain ⟨blocks, later⟩ := ih.2 e same
      exact ⟨block :: blocks, by rw [later]; rfl⟩

theorem copyFrom_ok (supply own : Throttle) (now : Millis) (blocks : List Bytes) :
    (copyFrom supply own now (blocks.map .ok)).1 = .ok blocks.flatten := by
  induction blocks generalizing supply own now with
  | nil => rfl
  | cons block blocks ih => simp [copyFrom, ih, Except.map]

theorem copyFrom_error (supply own : Throttle) (now : Millis) (blocks : List Bytes) (e : Failure)
    (later : List (Except Failure Bytes)) :
    (copyFrom supply own now (blocks.map .ok ++ .error e :: later)).1 = .error e := by
  induction blocks generalizing supply own now with
  | nil => rfl
  | cons block blocks ih => simp [copyFrom, ih, Except.map]

end Exec

theorem copy_ofContent (content : Bytes) (limit own : RateLimit) (now : Millis) :
    ((ofContent content limit).copy own now).1 = .ok content := by
  rw [copy, ofContent, copyFrom_ok, flatten_cut]

theorem copy_ofBytes (content : Bytes) (own : RateLimit) (now : Millis) :
    ((ofBytes content).copy own now).1 = .ok content := by
  have h := copyFrom_ok ⟨.unlimited, now, 0⟩ ⟨own, now, 0⟩ now [content]
  rwa [List.flatten_singleton] at h

theorem copy_exec (s : Source) (limit : RateLimit) (now : Millis) :
    ∃ untaken, CopyExec ⟨s.limit, now, 0⟩ ⟨limit, now, 0⟩ now [] s.blocks (s.copy limit now).1
      (s.copy limit now).2 untaken := by
  obtain ⟨untaken, exec⟩ := copyFrom_exec ⟨s.limit, now, 0⟩ ⟨limit, now, 0⟩ now [] s.blocks
  have whole : (s.copy limit now).1.map ([] ++ ·) = (s.copy limit now).1 := by
    cases (s.copy limit now).1 with
    | error e => rfl
    | ok data => rfl
  unfold copy at whole ⊢
  rw [whole] at exec
  exact ⟨untaken, exec⟩

/-- The stream of an upload delivers full blocks and at most one shorter one at its end, never
an empty one, and together they are the content. Reading any stream gives all of its blocks put
together if it does not break. If it breaks it gives the first failure and leaves behind it what
it has not taken. So what is read from the stream of an upload is the content. -/
theorem transfers_exact (content : Bytes) (s : Source) (limit : RateLimit) (now : Millis) :
    (∃ blocks : List Bytes,
      ((ofContent content limit).schedule now).map Prod.fst = blocks.map .ok ∧
        blocks.length = (content.length + 65535) / 65536 ∧ (∀ block ∈ blocks, block ≠ []) ∧
        (∀ block ∈ blocks.dropLast, block.length = 65536) ∧ blocks.flatten = content) ∧
    (∃ untaken,
      CopyExec ⟨s.limit, now, 0⟩ ⟨limit, now, 0⟩ now [] s.blocks (s.copy limit now).1
        (s.copy limit now).2 untaken ∧
      (∀ data, (s.copy limit now).1 = .ok data ↔
        ∃ blocks : List Bytes, s.blocks = blocks.map .ok ∧ data = blocks.flatten) ∧
      ∀ e, (s.copy limit now).1 = .error e ↔
        ∃ blocks : List Bytes, s.blocks = blocks.map .ok ++ .error e :: untaken) ∧
    ∀ supply, ((ofContent content supply).copy limit now).1 = .ok content := by
  refine ⟨⟨cut content, map_fst_scheduleFrom _ _ _, length_cut content,
    fun _ => ne_nil_of_mem_cut, fun _ => length_of_mem_dropLast_cut, flatten_cut content⟩, ?_,
    fun supply => copy_ofContent content supply limit now⟩
  obtain ⟨untaken, exec⟩ := s.copy_exec limit now
  obtain ⟨ofOk, ofError⟩ := exec.stream_eq
  refine ⟨untaken, exec, fun data => ⟨fun same => (ofOk data same).2, ?_⟩,
    fun e => ⟨ofError e, ?_⟩⟩
  · rintro ⟨blocks, stream, rfl⟩
    rw [copy, stream, copyFrom_ok]
  · rintro ⟨blocks, stream⟩
    rw [copy, stream, copyFrom_error]

/-- A stream that breaks behind an empty block and before a block. -/
def interrupted : Source :=
  ⟨[.ok [1], .ok [], .error (.network "reset"), .ok [2]], .unlimited⟩

theorem transfers_exact_interrupted :
    (∃ blocks : List Bytes,
      ((ofContent (List.replicate 65537 7) ⟨64⟩).schedule 0).map Prod.fst = blocks.map .ok ∧
        blocks.length = 2 ∧ blocks.flatten = List.replicate 65537 7) ∧
    CopyExec ⟨.unlimited, 0, 0⟩ ⟨⟨64⟩, 0, 0⟩ 0 [] interrupted.blocks (.error (.network "reset"))
      (interrupted.copy ⟨64⟩ 0).2 [.ok [2]] := by
  obtain ⟨⟨blocks, delivered, number, -, -, whole⟩, ⟨untaken, exec, -, error⟩, -⟩ :=
    transfers_exact (List.replicate 65537 7) interrupted ⟨64⟩ 0
  have broken : (interrupted.copy ⟨64⟩ 0).1 = .error (.network "reset") := rfl
  rw [List.length_replicate] at number
  refine ⟨⟨blocks, delivered, number, whole⟩, ?_⟩
  obtain ⟨before, stream⟩ := (error _).1 broken
  have behind : untaken = [.ok [2]] := by
    rcases before with _ | ⟨a, _ | ⟨b, _ | ⟨c, before⟩⟩⟩ <;> simp [interrupted] at stream
    exact stream.2.2.symm
  rwa [broken, behind] at exec

end Source

end ChunkStore
