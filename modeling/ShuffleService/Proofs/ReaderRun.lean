import ShuffleService.BlockReader

/-!
# Runs of a block reader

A reader looks at copies of blocks in the order in which its source gives them, and delivers some of
them. Which ones is a matter of the copies alone (`picks`): the first copy of each block, if the
block is expected and the copy carries a task attempt that counts.

* `StoredCopy`: a copy of a block with the bytes of its chunk, and `StoredCopy.block`, the block
  that it stands for;
* `seek`: the search that a call makes, with the copies that it looks at (`nextBlock_eq_seek`);
* `Reads`: calls up to the first that finds nothing left, each with what it looked at and delivered;
* `Reads.spec`: what a whole run delivers, from any source, and `Reads.unique`, that there is but
  one run.
-/

namespace ShuffleService

/-- A copy of a block as a source has given it: the bytes of its chunk, and where it lies there. -/
structure StoredCopy where
  data : Bytes
  segment : Segment

namespace StoredCopy

/-- The member of an id set that stands for the block. -/
def key (c : StoredCopy) : Nat := IdSet.key c.segment.blockId

/-- The member of an id set that stands for the task attempt of the copy. -/
def taskKey (c : StoredCopy) : Nat := IdSet.key c.segment.task

/-- The block of a copy, if its range lies inside the chunk and holds the bytes that were
written. -/
def block (c : StoredCopy) : Except ShuffleError Block :=
  let s := c.segment
  let stop := s.offset + s.length
  if 0 ≤ s.offset ∧ 0 ≤ s.length ∧ stop ≤ c.data.length then
    let bytes := (c.data.drop s.offset.toNat).take s.length.toNat
    if (Crc32.checksum bytes : Int) = s.crc then .ok ⟨bytes, s.rawLength⟩
    else .error (.checksumMismatch s.blockId s.crc (Crc32.checksum bytes))
  else
    .error (.dataCorrupted (s!"Can't read data for blockId[{s.blockId}], " ++
      s!"range [{s.offset}, {stop}) is out of the read buffer with length {c.data.length}"))

end StoredCopy

/-- The first element with each key, in order. -/
def firstPer {α : Type} (key : α → Nat) : List α → List α
  | [] => []
  | a :: as => a :: (firstPer key as).filter (key · ≠ key a)

theorem mem_firstPer {α : Type} {key : α → Nat} {a : α} {as : List α} :
    a ∈ firstPer key as ↔ as.find? (key · = key a) = some a := by
  induction as with
  | nil => simp [firstPer]
  | cons b as ih =>
    by_cases hb : key b = key a
    · simp [firstPer, hb, eq_comm]
    · have hne : a ≠ b := fun h => hb (by rw [h])
      simp [firstPer, hb, hne, ih, Ne.symm hb]

theorem nodup_firstPer {α : Type} (key : α → Nat) (as : List α) :
    ((firstPer key as).map key).Nodup := by
  induction as with
  | nil => exact .nil
  | cons a as ih =>
    rw [firstPer, List.map_cons, List.nodup_cons]
    refine ⟨?_, (List.filter_sublist.map _).nodup ih⟩
    simp

theorem firstPer_sublist {α : Type} (key : α → Nat) (as : List α) :
    (firstPer key as).Sublist as := by
  induction as with
  | nil => exact .slnil
  | cons a as ih => exact (List.filter_sublist.trans ih).cons_cons a

/-- Each key that there is has a first element. -/
theorem mem_map_firstPer {α : Type} {key : α → Nat} {as : List α} {x : Nat} :
    x ∈ (firstPer key as).map key ↔ x ∈ as.map key := by
  refine ⟨fun h => ((firstPer_sublist key as).map key).subset h, fun h => ?_⟩
  obtain ⟨a, ha, rfl⟩ := List.mem_map.1 h
  obtain ⟨first, hfirst⟩ : ∃ first, as.find? (key · = key a) = some first := by
    rw [← Option.isSome_iff_exists, List.find?_isSome]
    exact ⟨a, ha, by simp⟩
  have hkey : key first = key a := by simpa using List.find?_some hfirst
  rw [← hkey] at hfirst ⊢
  exact List.mem_map_of_mem (mem_firstPer.2 hfirst)

/-- The first elements with each key, under another name for the elements. -/
theorem firstPer_map {α β : Type} (key : β → Nat) (f : α → β) (as : List α) :
    firstPer key (as.map f) = (firstPer (fun a => key (f a)) as).map f := by
  induction as with
  | nil => rfl
  | cons a as ih =>
    rw [List.map_cons, firstPer, ih, firstPer, List.map_cons, List.filter_map]
    rfl

/-- Of a list and more after it the first elements are those of the list, and those of the rest that
have other keys. -/
theorem firstPer_append {α : Type} (key : α → Nat) (as bs : List α) : firstPer key (as ++ bs) =
    firstPer key as ++ (firstPer key bs).filter (key · ∉ as.map key) := by
  induction as with
  | nil => exact (List.filter_eq_self.2 fun b _ => by simp).symm
  | cons a as ih =>
    simp only [List.cons_append, firstPer, ih, List.filter_append, List.filter_filter,
      List.map_cons, List.mem_cons, not_or, Bool.decide_and]

namespace BlockReader

/-! ### The copies that are delivered -/

/-- Whether a copy is of an expected block, by a task attempt that counts. -/
def wants (r : BlockReader) (c : StoredCopy) : Bool :=
  r.expected.contains c.key && r.tasks.contains c.taskKey

/-- A reader that has looked at one more copy. -/
def look (r : BlockReader) (c : StoredCopy) : BlockReader :=
  { r with processed := r.processed.insert c.key }

/-- A reader that has looked at several more copies. -/
def lookAll (r : BlockReader) (cs : List StoredCopy) : BlockReader := cs.foldl look r

/-- The copies that a reader delivers of those that it looks at. -/
def picks (r : BlockReader) : List StoredCopy → List StoredCopy
  | [] => []
  | c :: cs => if r.accepts c.segment then c :: (r.look c).picks cs else (r.look c).picks cs

@[simp] theorem lookAll_nil (r : BlockReader) : r.lookAll [] = r := rfl

@[simp] theorem lookAll_cons (r : BlockReader) (c : StoredCopy) (cs : List StoredCopy) :
    r.lookAll (c :: cs) = (r.look c).lookAll cs := rfl

theorem lookAll_append (r : BlockReader) (cs ds : List StoredCopy) :
    r.lookAll (cs ++ ds) = (r.lookAll cs).lookAll ds := List.foldl_append

@[simp] theorem expected_lookAll (r : BlockReader) (cs : List StoredCopy) :
    (r.lookAll cs).expected = r.expected := by
  induction cs generalizing r with
  | nil => rfl
  | cons c cs ih => exact ih (r.look c)

@[simp] theorem tasks_lookAll (r : BlockReader) (cs : List StoredCopy) :
    (r.lookAll cs).tasks = r.tasks := by
  induction cs generalizing r with
  | nil => rfl
  | cons c cs ih => exact ih (r.look c)

@[simp] theorem buffer_lookAll (r : BlockReader) (cs : List StoredCopy) :
    (r.lookAll cs).buffer = r.buffer := by
  induction cs generalizing r with
  | nil => rfl
  | cons c cs ih => exact ih (r.look c)

theorem picks_append (r : BlockReader) (cs ds : List StoredCopy) :
    r.picks (cs ++ ds) = r.picks cs ++ (r.lookAll cs).picks ds := by
  induction cs generalizing r with
  | nil => rfl
  | cons c cs ih =>
    simp only [List.cons_append, picks, lookAll_cons, ih]
    split <;> rfl

theorem mem_processed_look {r : BlockReader} {c : StoredCopy} {x : Nat} :
    x ∈ (r.look c).processed ↔ x = c.key ∨ x ∈ r.processed := IdSet.mem_insert (IdSet.key_lt _)

theorem mem_processed_lookAll {r : BlockReader} {cs : List StoredCopy} {x : Nat} :
    x ∈ (r.lookAll cs).processed ↔ x ∈ r.processed ∨ ∃ c ∈ cs, c.key = x := by
  induction cs generalizing r with
  | nil => simp
  | cons c cs ih =>
    rw [lookAll_cons, ih, mem_processed_look]
    simp only [List.mem_cons, exists_eq_or_imp]
    grind

theorem accepts_eq (r : BlockReader) (c : StoredCopy) :
    r.accepts c.segment = (!r.processed.contains c.key && r.wants c) := by
  rw [accepts, wants, Bool.and_assoc]
  rfl

/-- A reader delivers the first copy of each block that it has not seen and wants in that copy. -/
theorem picks_eq (r : BlockReader) (cs : List StoredCopy) :
    r.picks cs = (firstPer StoredCopy.key cs).filter fun c =>
      !r.processed.contains c.key && r.wants c := by
  induction cs generalizing r with
  | nil => rfl
  | cons c cs ih =>
    have hrest : (r.look c).picks cs = ((firstPer StoredCopy.key cs).filter (·.key ≠ c.key)).filter
        fun c => !r.processed.contains c.key && r.wants c := by
      rw [ih, List.filter_filter]
      congr 1
      funext d
      have hseen : (r.look c).processed.contains d.key =
          (decide (d.key = c.key) || r.processed.contains d.key) := by
        rw [Bool.eq_iff_iff]
        simp [mem_processed_look]
      have hwants : (r.look c).wants d = r.wants d := rfl
      rw [hseen, hwants]
      grind
    rw [picks, hrest, accepts_eq, firstPer, List.filter_cons]

/-- The copies that wait in the queue. -/
def waiting (r : BlockReader) : List StoredCopy := r.queue.map (⟨r.buffer.toList, ·⟩)

theorem cursor_of_nextAccepted {r r' : BlockReader} {o : Option Segment}
    (h : r.nextAccepted r.queue = (o, r')) : r'.cursor = r.cursor := by
  simpa [h] using cursor_nextAccepted r r.queue

/-- Either all copies of a queue are passed over, or one is accepted and those after it stay. -/
theorem nextAccepted_cases (r : BlockReader) (data : Bytes) (queue : List Segment) :
    (r.picks (queue.map (⟨data, ·⟩)) = [] ∧
      r.nextAccepted queue = (none, { r.lookAll (queue.map (⟨data, ·⟩)) with queue := [] })) ∨
    ∃ before s after, queue = before ++ s :: after ∧
      r.picks ((before ++ [s]).map (⟨data, ·⟩)) = [⟨data, s⟩] ∧
      r.nextAccepted queue =
        (some s, { r.lookAll ((before ++ [s]).map (⟨data, ·⟩)) with queue := after }) := by
  induction queue generalizing r with
  | nil => exact .inl ⟨rfl, rfl⟩
  | cons s rest ih =>
    cases haccepts : r.accepts s with
    | true =>
      refine .inr ⟨[], s, rest, rfl, ?_, ?_⟩
      · simp [picks, haccepts]
      · simp only [nextAccepted, haccepts, if_true]
        rfl
    | false =>
      have hnext : r.nextAccepted (s :: rest) = (r.look ⟨data, s⟩).nextAccepted rest := by
        simp only [nextAccepted, haccepts, Bool.false_eq_true, if_false]
        rfl
      rw [hnext]
      rcases ih (r.look ⟨data, s⟩) with ⟨hpicks, heq⟩ | ⟨before, t, after, rfl, hpicks, heq⟩
      · refine .inl ⟨?_, heq⟩
        simp [picks, haccepts, hpicks]
      · refine .inr ⟨s :: before, t, after, rfl, ?_, heq⟩
        simpa [picks, haccepts] using hpicks

/-! ### The search that a call makes -/

variable {σ : Type}

/-- Ask the source for the next chunk. Returns whether there is anything in it to look at. -/
def refill (source : ChunkSource σ) (r : BlockReader) (s : σ) :
    Except ShuffleError Bool × BlockReader × σ :=
  match source.read s r.cursor with
  | (.error e, s') => (.error e, r, s')
  | (.ok none, s') => (.ok false, { r with cursor := r.cursor + 1 }, s')
  | (.ok (some chunk), s') =>
    if chunk.data.isEmpty then (.ok false, { r with cursor := r.cursor + 1 }, s')
    else
      (.ok !chunk.segments.isEmpty,
        { r with
          cursor := r.cursor + 1
          buffer := chunk.data.toArray
          queue := chunk.segments }, s')

/-- A chunk was read, and the source cannot answer with many more. -/
theorem bound_refill {source : ChunkSource σ} {r r' : BlockReader} {s s' : σ}
    (h : refill source r s = (.ok true, r', s')) :
    source.bound s' - r'.cursor < source.bound s - r.cursor := by
  unfold refill at h
  split at h
  · simp at h
  · simp at h
  · rename_i chunk t hread
    split at h
    · simp at h
    · obtain ⟨-, rfl, rfl⟩ : _ ∧ _ ∧ _ := by simpa using h
      have h1 := source.lt_bound hread
      have h2 := source.bound_le hread
      simp only
      omega

/-- What a call comes to before the bytes of a block are copied. -/
structure Search (σ : Type) where
  /-- The copies that the call looks at, in order. -/
  looked : List StoredCopy
  found : Except ShuffleError (Option StoredCopy)
  reader : BlockReader
  state : σ

/-- Look for the next copy that is accepted, refilling the queue as long as it runs empty. -/
def seek (source : ChunkSource σ) (r : BlockReader) (s : σ) : Search σ :=
  match _hnext : r.nextAccepted r.queue with
  | (some segment, r') =>
    { looked := r.waiting.take (r.queue.length - r'.queue.length)
      found := .ok (some ⟨r.buffer.toList, segment⟩)
      reader := r'
      state := s }
  | (none, r') =>
    match _hrefill : refill source r' s with
    | (.error e, r'', s') => ⟨r.waiting, .error e, r'', s'⟩
    | (.ok false, r'', s') => ⟨r.waiting, .ok none, r'', s'⟩
    | (.ok true, r'', s') =>
      let rest := seek source r'' s'
      { rest with looked := r.waiting ++ rest.looked }
termination_by source.bound s - r.cursor
decreasing_by
  rw [← cursor_of_nextAccepted _hnext]
  exact bound_refill _hrefill

namespace Search

/-- The answer that a search leads to. -/
def outcome (f : Search σ) : Outcome :=
  match f.found with
  | .error e => .error e
  | .ok none => .ok none
  | .ok (some c) => c.block.map some

/-- The copy that a search ends with, if it finds one. -/
def delivered (f : Search σ) : Option StoredCopy :=
  match f.found with
  | .ok found => found
  | .error _ => none

end Search

theorem copy_eq_block (buffer : Array UInt8) (s : Segment) :
    copy buffer s = StoredCopy.block ⟨buffer.toList, s⟩ := by
  have hrange : (s.offset < 0 ∨ s.length < 0 ∨ s.offset + s.length > buffer.size) ↔
      ¬ (0 ≤ s.offset ∧ 0 ≤ s.length ∧ s.offset + s.length ≤ buffer.toList.length) := by
    rw [Array.length_toList]
    omega
  simp only [copy, StoredCopy.block, hrange, ite_not, bytesAt_eq, Array.length_toList]

/-- The first step of a call: deliver from the queue, or else refill it and go on. -/
theorem advance_eq (source : ChunkSource σ) (r : BlockReader) (s : σ) :
    advance source r s =
      match r.nextAccepted r.queue with
      | (some segment, r') => ((copy r'.buffer segment).map some, r', s)
      | (none, r') =>
        match refill source r' s with
        | (.error e, r'', s') => (.error e, r'', s')
        | (.ok false, r'', s') => (.ok none, r'', s')
        | (.ok true, r'', s') => advance source r'' s' := by
  rw [advance]
  rcases hnext : r.nextAccepted r.queue with ⟨_ | segment, r'⟩
  · simp only [refill, cursor_of_nextAccepted hnext]
    rcases source.read s r.cursor with ⟨e | _ | chunk, s'⟩
    · rfl
    · rfl
    · simp only
      cases chunk.data.isEmpty <;> cases chunk.segments.isEmpty <;> rfl
  · rfl

/-- A call without the copying is a search. -/
theorem advance_eq_seek (source : ChunkSource σ) (r : BlockReader) (s : σ) :
    advance source r s =
      ((seek source r s).outcome, (seek source r s).reader, (seek source r s).state) := by
  fun_induction seek source r s with
  | case1 r s segment r' hnext =>
    rw [advance_eq, hnext]
    -- copying takes place in the buffer after the queue was searched, which is the one before
    have hbuffer : r'.buffer = r.buffer := by
      rcases nextAccepted_cases r r.buffer.toList r.queue with ⟨-, heq⟩ | ⟨_, _, _, -, -, heq⟩ <;>
        rw [heq] at hnext <;> cases hnext
      simp
    simp only [hbuffer, copy_eq_block]
    rfl
  | case2 r s r' hnext e r'' s' hrefill =>
    rw [advance_eq, hnext]
    simp only [hrefill]
    rfl
  | case3 r s r' hnext r'' s' hrefill =>
    rw [advance_eq, hnext]
    simp only [hrefill]
    rfl
  | case4 r s r' hnext r'' s' hrefill rest ih =>
    rw [advance_eq, hnext]
    simp only [hrefill, ih]
    rfl

theorem nextBlock_eq_seek {r : BlockReader} (h : r.expected.isEmpty = false)
    (source : ChunkSource σ) (s : σ) :
    nextBlock source r s =
      ((seek source r s).outcome, (seek source r s).reader, (seek source r s).state) := by
  rw [nextBlock, h, ← advance_eq_seek]
  rfl

/-! ### What is kept between calls -/

/-- Two readers that deliver the same of whatever they look at. -/
structure Agrees (a b : BlockReader) : Prop where
  expected : a.expected = b.expected
  tasks : a.tasks = b.tasks
  processed : a.processed = b.processed

namespace Agrees

variable {a b c : BlockReader}

theorem refl (a : BlockReader) : Agrees a a := ⟨rfl, rfl, rfl⟩

theorem trans (h : Agrees a b) (h' : Agrees b c) : Agrees a c :=
  ⟨h.expected.trans h'.expected, h.tasks.trans h'.tasks, h.processed.trans h'.processed⟩

theorem picks (h : Agrees a b) (cs : List StoredCopy) : a.picks cs = b.picks cs := by
  simp only [picks_eq, wants, h.expected, h.tasks, h.processed]

theorem lookAll (h : Agrees a b) (cs : List StoredCopy) : Agrees (a.lookAll cs) (b.lookAll cs) where
  expected := by simpa using h.expected
  tasks := by simpa using h.tasks
  processed := IdSet.ext fun x => by simp only [mem_processed_lookAll, h.processed]

end Agrees

theorem agrees_refill {source : ChunkSource σ} {r r' : BlockReader} {s s' : σ}
    {ans : Except ShuffleError Bool} (h : refill source r s = (ans, r', s')) : Agrees r' r := by
  unfold refill at h
  split at h
  · cases h
    exact ⟨rfl, rfl, rfl⟩
  · cases h
    exact ⟨rfl, rfl, rfl⟩
  · split at h <;> cases h <;> exact ⟨rfl, rfl, rfl⟩

theorem nextAccepted_none {r r' : BlockReader} (h : r.nextAccepted r.queue = (none, r')) :
    r.picks r.waiting = [] ∧ r' = { r.lookAll r.waiting with queue := [] } := by
  rcases nextAccepted_cases r r.buffer.toList r.queue with ⟨hpicks, heq⟩ | ⟨_, _, _, -, -, heq⟩
  · rw [heq] at h
    cases h
    exact ⟨hpicks, rfl⟩
  · rw [heq] at h
    cases h

theorem nextAccepted_some {r r' : BlockReader} {s : Segment}
    (h : r.nextAccepted r.queue = (some s, r')) :
    let looked := r.waiting.take (r.queue.length - r'.queue.length)
    r.picks looked = [⟨r.buffer.toList, s⟩] ∧ r' = { r.lookAll looked with queue := r'.queue } ∧
      r.waiting = looked ++ r'.waiting := by
  rcases nextAccepted_cases r r.buffer.toList r.queue with
    ⟨-, heq⟩ | ⟨before, t, after, hqueue, hpicks, heq⟩
  · rw [heq] at h
    cases h
  · rw [heq] at h
    cases h
    have hlooked : r.waiting.take (r.queue.length - after.length) =
        (before ++ [s]).map (⟨r.buffer.toList, ·⟩) := by
      rw [waiting, hqueue, List.append_cons, List.map_append, List.take_left']
      simp only [List.length_append, List.length_map]
      omega
    simp only [hlooked]
    refine ⟨hpicks, trivial, ?_⟩
    simp [waiting, hqueue]

/-- A search marks what it looks at, and ends with what of it is to be delivered. -/
theorem seek_spec (source : ChunkSource σ) (r : BlockReader) (s : σ) :
    r.picks (seek source r s).looked = (seek source r s).delivered.toList ∧
      Agrees (seek source r s).reader (r.lookAll (seek source r s).looked) := by
  fun_induction seek source r s with
  | case1 r s segment r' hnext =>
    obtain ⟨hpicks, heq, -⟩ := nextAccepted_some hnext
    refine ⟨hpicks, ?_⟩
    simp only
    rw [heq]
    exact ⟨rfl, rfl, rfl⟩
  | case2 r s r' hnext e r'' s' hrefill =>
    obtain ⟨hpicks, rfl⟩ := nextAccepted_none hnext
    exact ⟨hpicks, (agrees_refill hrefill).trans ⟨rfl, rfl, rfl⟩⟩
  | case3 r s r' hnext r'' s' hrefill =>
    obtain ⟨hpicks, rfl⟩ := nextAccepted_none hnext
    exact ⟨hpicks, (agrees_refill hrefill).trans ⟨rfl, rfl, rfl⟩⟩
  | case4 r s r' hnext r'' s' hrefill rest ih =>
    -- the rest of the search starts from a reader that has looked at the whole queue
    obtain ⟨hpicks, rfl⟩ := nextAccepted_none hnext
    have hagrees : Agrees r'' (r.lookAll r.waiting) :=
      (agrees_refill hrefill).trans ⟨rfl, rfl, rfl⟩
    refine ⟨?_, ?_⟩
    · rw [picks_append, hpicks, ← hagrees.picks]
      exact ih.1
    · rw [lookAll_append]
      exact ih.2.trans (hagrees.lookAll _)

/-! ### Calls up to the end -/

/-- One call: the copies it looked at, the one it delivered, and its answer. -/
structure Call where
  looked : List StoredCopy
  delivered : Option StoredCopy
  outcome : Outcome

/-- Make a call and note what it looks at and delivers. A reader that expects nothing does not
look. -/
def call (source : ChunkSource σ) (r : BlockReader) (s : σ) : Call × BlockReader × σ :=
  let (outcome, r', s') := nextBlock source r s
  if r.expected.isEmpty then (⟨[], none, outcome⟩, r', s')
  else
    let search := seek source r s
    (⟨search.looked, search.delivered, outcome⟩, r', s')

/-- The calls up to the first that finds nothing left, which is the last of them. -/
inductive Reads (source : ChunkSource σ) : BlockReader → σ → List Call → BlockReader → σ → Prop
  | last {r s c r' s'} (hcall : call source r s = (c, r', s')) (hnone : c.outcome = .ok none) :
    Reads source r s [c] r' s'
  | more {r s c r₁ s₁ cs r' s'} (hcall : call source r s = (c, r₁, s₁))
    (hsome : c.outcome ≠ .ok none) (hrest : Reads source r₁ s₁ cs r' s') :
    Reads source r s (c :: cs) r' s'

/-- The copies that calls have looked at, in order. -/
def lookedAt (cs : List Call) : List StoredCopy := cs.flatMap (·.looked)

/-- The copies that calls have delivered, in order. -/
def delivered (cs : List Call) : List StoredCopy := cs.flatMap (·.delivered.toList)

@[simp] theorem lookedAt_cons (c : Call) (cs : List Call) :
    lookedAt (c :: cs) = c.looked ++ lookedAt cs := rfl

@[simp] theorem delivered_cons (c : Call) (cs : List Call) :
    delivered (c :: cs) = c.delivered.toList ++ delivered cs := rfl

theorem call_eq {r : BlockReader} (h : r.expected.isEmpty = false) (source : ChunkSource σ)
    (s : σ) :
    call source r s =
      let search := seek source r s
      (⟨search.looked, search.delivered, search.outcome⟩, search.reader, search.state) := by
  simp only [call, nextBlock_eq_seek h, h]
  rfl

theorem call_of_isEmpty {r : BlockReader} (h : r.expected.isEmpty = true) (source : ChunkSource σ)
    (s : σ) : call source r s = (⟨[], none, .ok none⟩, r, s) := by
  simp only [call, nextBlock, h, if_true]

/-- What a call delivers is the block of a copy. -/
theorem outcome_call {source : ChunkSource σ} {r r' : BlockReader} {s s' : σ} {c : Call}
    (h : call source r s = (c, r', s')) {d : StoredCopy} (hd : c.delivered = some d) :
    c.outcome = d.block.map some := by
  cases hexpected : r.expected.isEmpty with
  | true =>
    rw [call_of_isEmpty hexpected] at h
    cases h
    cases hd
  | false =>
    rw [call_eq hexpected] at h
    cases h
    simp only [Search.delivered] at hd
    simp only [Search.outcome]
    split at hd
    · rename_i found hfound
      subst hd
      rw [hfound]
    · cases hd

/-- A call marks what it looks at, and delivers what of it is to be delivered. -/
theorem call_spec {source : ChunkSource σ} {r r' : BlockReader} {s s' : σ} {c : Call}
    (h : call source r s = (c, r', s')) :
    r.picks c.looked = c.delivered.toList ∧ Agrees r' (r.lookAll c.looked) := by
  cases hexpected : r.expected.isEmpty with
  | true =>
    rw [call_of_isEmpty hexpected] at h
    cases h
    exact ⟨rfl, .refl _⟩
  | false =>
    rw [call_eq hexpected] at h
    cases h
    exact seek_spec source r s

namespace Reads

variable {source : ChunkSource σ} {r r' r₁ r₂ : BlockReader} {s s' s₁ s₂ : σ} {cs cs' : List Call}

/-- The calls up to the end are determined by where they start. -/
theorem unique (h : Reads source r s cs r₁ s₁) (h' : Reads source r s cs' r₂ s₂) :
    cs = cs' ∧ r₁ = r₂ ∧ s₁ = s₂ := by
  induction h generalizing cs' with
  | last hcall hnone =>
    cases h' with
    | last hcall' hnone' =>
      rw [hcall] at hcall'
      cases hcall'
      exact ⟨rfl, rfl, rfl⟩
    | more hcall' hsome' hrest' =>
      rw [hcall] at hcall'
      cases hcall'
      exact absurd hnone hsome'
  | more hcall hsome hrest ih =>
    cases h' with
    | last hcall' hnone' =>
      rw [hcall] at hcall'
      cases hcall'
      exact absurd hnone' hsome
    | more hcall' hsome' hrest' =>
      rw [hcall] at hcall'
      cases hcall'
      obtain ⟨rfl, rfl, rfl⟩ := ih hrest'
      exact ⟨rfl, rfl, rfl⟩

/-- A run marks all that it looks at, and delivers what of it is to be delivered. -/
theorem spec (h : Reads source r s cs r' s') :
    delivered cs = r.picks (lookedAt cs) ∧ Agrees r' (r.lookAll (lookedAt cs)) := by
  induction h with
  | last hcall hnone =>
    obtain ⟨hpicks, hagrees⟩ := call_spec hcall
    simpa [delivered, lookedAt] using ⟨hpicks.symm, hagrees⟩
  | more hcall hsome hrest ih =>
    obtain ⟨hpicks, hagrees⟩ := call_spec hcall
    rw [delivered_cons, lookedAt_cons]
    refine ⟨?_, ?_⟩
    · rw [picks_append, hpicks, ← hagrees.picks, ih.1]
    · rw [lookAll_append]
      exact ih.2.trans (hagrees.lookAll _)

end Reads

end BlockReader

end ShuffleService
