import ShuffleService.Proofs.ReaderReference

/-!
# Sources that fail for a while

A read of a source may fail and succeed when it is tried again. A call of a reader that runs into a
failure has looked at some segments by then, and possibly at several chunks. The reader keeps what
it has seen and asks for the same chunk again, so that the next call goes on where the failed one
stopped.

* `ChunkSource.Recovers`: a source that answers by a list, with failures before the answers;
* `ahead`: what a search comes to if nothing fails, and `seek_of_recovers`, how a search against a
  failing source relates to it;
* `Retried`, `Results`: calls that are made again as long as they fail with the source;
* `answers_despite_failures`: a run against a failing source, next to one against the list.
-/

namespace ShuffleService

/-- The source answers by a list, whatever it was asked before, except that a read may fail instead.
For each number there are but finitely many failures to come, until it is answered. -/
def ChunkSource.Recovers {σ : Type} (source : ChunkSource σ) (good : σ → Prop)
    (left : σ → Nat → Nat) (answers : List ChunkAnswer) : Prop :=
  ∀ s k, good s → good (source.read s k).2 ∧
    ((source.read s k).1 = answers.getD k (.ok none) ∨
      (∃ e, (source.read s k).1 = .error e) ∧ left (source.read s k).2 k < left s k)

/-- The source that answers by a list, but first fails with the errors that its state still holds
for a number. -/
def ChunkSource.failing (answers : List ChunkAnswer) : ChunkSource (Nat → List ShuffleError) where
  read faults k :=
    match faults k with
    | [] => (answers.getD k (.ok none), faults)
    | e :: es => (.error e, fun i => if i = k then es else faults i)
  close faults := faults
  bound _ := answers.length
  lt_bound {faults faults' k c} h := by
    split at h
    · have hanswer := (Prod.ext_iff.1 h).1
      apply Decidable.byContradiction
      intro hle
      simp [List.getD, List.getElem?_eq_none (Nat.le_of_not_lt hle)] at hanswer
    · cases h
  bound_le _ := Nat.le_refl _

theorem recovers_failing (answers : List ChunkAnswer) :
    (ChunkSource.failing answers).Recovers (fun _ => True) (fun faults k => (faults k).length)
      answers := by
  intro faults k _
  refine ⟨trivial, ?_⟩
  cases hk : faults k with
  | nil =>
    left
    simp only [ChunkSource.failing, hk]
  | cons e es =>
    right
    simp only [ChunkSource.failing, hk]
    exact ⟨⟨e, rfl⟩, by simp⟩

theorem recovers_recorded (answers : List ChunkAnswer) :
    (ChunkSource.recorded answers).Recovers (fun _ => True) (fun _ _ => 0) answers :=
  fun _ _ _ => ⟨trivial, .inl rfl⟩

namespace BlockReader

variable {σ : Type} {source : ChunkSource σ} {good : σ → Prop} {left : σ → Nat → Nat}
  {answers : List ChunkAnswer} {q q' r r' : BlockReader} {s s' : σ} {log log' : AccessLog}

/-! ### One search -/

/-- A refill in terms of the answer to the read. -/
def refillBy (answer : ChunkAnswer) (r : BlockReader) : Except ShuffleError Bool × BlockReader :=
  match answer with
  | .error e => (.error e, r)
  | .ok none => (.ok false, { r with cursor := r.cursor + 1 })
  | .ok (some chunk) =>
    if chunk.data.isEmpty then (.ok false, { r with cursor := r.cursor + 1 })
    else
      (.ok !chunk.segments.isEmpty,
        { r with
          cursor := r.cursor + 1
          buffer := chunk.data.toArray
          queue := chunk.segments })

theorem refill_eq (source : ChunkSource σ) (r : BlockReader) (s : σ) : refill source r s =
    ((refillBy (source.read s r.cursor).1 r).1, (refillBy (source.read s r.cursor).1 r).2,
      (source.read s r.cursor).2) := by
  unfold refill refillBy
  rcases source.read s r.cursor with ⟨e | _ | chunk, s'⟩
  · rfl
  · rfl
  · dsimp only
    split <;> rfl

/-- A refill that fails leaves the reader as it is. -/
theorem refillBy_error {answer : ChunkAnswer} {e : ShuffleError}
    (h : refillBy answer r = (.error e, r')) : r' = r := by
  unfold refillBy at h
  split at h
  · cases h
    rfl
  · cases h
  · split at h <;> cases h

/-- A refill that brings segments goes on to the next number. -/
theorem refillBy_true {answer : ChunkAnswer} (h : refillBy answer r = (.ok true, r')) :
    (∃ chunk, answer = .ok (some chunk)) ∧ r'.cursor = r.cursor + 1 := by
  unfold refillBy at h
  split at h
  · cases h
  · cases h
  · split at h
    · cases h
    · rw [Prod.mk.injEq] at h
      exact ⟨⟨_, rfl⟩, h.2 ▸ rfl⟩

/-- Only a chunk of the list brings segments, and then fewer chunks are to come. -/
theorem lt_of_refillBy_true (h : refillBy (answers.getD r.cursor (.ok none)) r = (.ok true, r')) :
    answers.length - r'.cursor < answers.length - r.cursor := by
  obtain ⟨⟨chunk, hchunk⟩, hcursor⟩ := refillBy_true h
  have hlt : r.cursor < answers.length := by
    apply Decidable.byContradiction
    intro hle
    simp [List.getD, List.getElem?_eq_none (Nat.le_of_not_lt hle)] at hchunk
  omega

/-- How a search ends. -/
def Search.ending (f : Search σ) : Except ShuffleError (Option StoredCopy) × BlockReader × σ :=
  (f.found, f.reader, f.state)

theorem seek_of_some {segment : Segment} (source : ChunkSource σ) (s : σ)
    (hnext : r.nextAccepted r.queue = (some segment, r')) :
    (seek source r s).ending = (.ok (some ⟨r.buffer.toList, segment⟩), r', s) := by
  rw [seek]
  split
  · rename_i hnext'
    cases hnext.symm.trans hnext'
    rfl
  · rename_i hnext'
    cases hnext.symm.trans hnext'

/-- A search with nothing in the queue goes by the answer to its first read. -/
theorem seek_of_none (source : ChunkSource σ) (s : σ)
    (hnext : r.nextAccepted r.queue = (none, r')) : (seek source r s).ending =
      match refillBy (source.read s r'.cursor).1 r' with
      | (.error e, r'') => (.error e, r'', (source.read s r'.cursor).2)
      | (.ok false, r'') => (.ok none, r'', (source.read s r'.cursor).2)
      | (.ok true, r'') => (seek source r'' (source.read s r'.cursor).2).ending := by
  have hrefill := refill_eq source r' s
  generalize refillBy (source.read s r'.cursor).1 r' = p at hrefill ⊢
  generalize (source.read s r'.cursor).2 = s' at hrefill ⊢
  obtain ⟨ans, r₁⟩ := p
  rw [seek]
  split
  · rename_i hnext'
    cases hnext.symm.trans hnext'
  · rename_i hnext'
    cases hnext.symm.trans hnext'
    split <;> rename_i hrefill' <;> cases hrefill.symm.trans hrefill' <;> rfl

/-- How a search ends if the answers to come are those of a list. -/
def listed : List ChunkAnswer → BlockReader →
    Except ShuffleError (Option StoredCopy) × BlockReader
  | [], r =>
    match r.nextAccepted r.queue with
    | (some segment, r') => (.ok (some ⟨r.buffer.toList, segment⟩), r')
    | (none, r') => (.ok none, { r' with cursor := r'.cursor + 1 })
  | a :: rest, r =>
    match r.nextAccepted r.queue with
    | (some segment, r') => (.ok (some ⟨r.buffer.toList, segment⟩), r')
    | (none, r') =>
      match refillBy a r' with
      | (.error e, r'') => (.error e, r'')
      | (.ok false, r'') => (.ok none, r'')
      | (.ok true, r'') => listed rest r''

theorem listed_of_some {segment : Segment} (answers : List ChunkAnswer)
    (hnext : r.nextAccepted r.queue = (some segment, r')) :
    listed answers r = (.ok (some ⟨r.buffer.toList, segment⟩), r') := by
  cases answers <;> rw [listed, hnext]

/-- A reader that has passed over its queue searches as it did before. -/
theorem listed_of_none (answers : List ChunkAnswer) (hnext : r.nextAccepted r.queue = (none, r')) :
    listed answers r' = listed answers r := by
  have hnext' : r'.nextAccepted r'.queue = (none, r') := by
    obtain ⟨-, rfl⟩ := nextAccepted_none hnext
    rfl
  cases answers <;> rw [listed, listed, hnext, hnext']

/-- What a search comes to from a source that answers by a list, if it does not fail. -/
def ahead (answers : List ChunkAnswer) (r : BlockReader) :
    Except ShuffleError (Option StoredCopy) × BlockReader :=
  listed (answers.drop r.cursor) r

theorem ahead_of_none (answers : List ChunkAnswer) (hnext : r.nextAccepted r.queue = (none, r')) :
    ahead answers r = match refillBy (answers.getD r'.cursor (.ok none)) r' with
    | (.error e, r'') => (.error e, r'')
    | (.ok false, r'') => (.ok none, r'')
    | (.ok true, r'') => ahead answers r'' := by
  have hcursor := cursor_of_nextAccepted hnext
  rw [ahead, List.getD_eq_getElem?_getD, hcursor]
  cases ha : answers[r.cursor]? with
  | none =>
    rw [List.drop_of_length_le (List.getElem?_eq_none_iff.1 ha), listed, hnext]
    rfl
  | some a =>
    obtain ⟨hlt, rfl⟩ := List.getElem?_eq_some_iff.1 ha
    rw [List.drop_eq_getElem_cons hlt, listed, hnext, Option.getD_some]
    dsimp only
    rcases hrefill : refillBy answers[r.cursor] r' with ⟨_ | _ | _, r''⟩
    · rfl
    · rfl
    · dsimp only
      rw [ahead, (refillBy_true hrefill).2, hcursor]

/-- **One search.** A search either ends as it would if the source did not fail; or the source
fails, and then there are fewer failures left for the chunk, or fewer chunks. After a failure the
next search ends as this one would. -/
theorem seek_of_recovers (h : source.Recovers good left answers) (hs : good s) :
    ∃ found r' s', (seek source r s).ending = (found, r', s') ∧ good s' ∧
      (ahead answers r = (found, r') ∨ (∃ e, found = .error e) ∧
        (answers.length - r'.cursor < answers.length - r.cursor ∨
          r'.cursor = r.cursor ∧ left s' r.cursor < left s r.cursor)) ∧
      ((∃ e, found = .error e) → ahead answers r' = ahead answers r) := by
  induction hn : answers.length - r.cursor using Nat.strongRecOn generalizing r s with
  | ind n ih =>
    rcases hnext : r.nextAccepted r.queue with ⟨_ | segment, r'⟩
    · obtain ⟨hgood, hanswer⟩ := h s r'.cursor hs
      have hcursor := cursor_of_nextAccepted hnext
      have hagain : ahead answers r' = ahead answers r := by
        rw [ahead, hcursor]
        exact listed_of_none _ hnext
      rw [seek_of_none source s hnext]
      rcases hanswer with hanswer | ⟨⟨e, he⟩, hleft⟩
      · have hahead := ahead_of_none answers hnext
        rw [hanswer]
        rcases hrefill : refillBy (answers.getD r'.cursor (.ok none)) r' with ⟨e | _ | _, r''⟩ <;>
          rw [hrefill] at hahead
        · -- the list itself holds a failure, which the source has passed on
          refine ⟨_, _, _, rfl, hgood, .inl hahead, fun _ => ?_⟩
          rw [refillBy_error hrefill, hagain]
        · exact ⟨_, _, _, rfl, hgood, .inl hahead, nofun⟩
        · have hlt := lt_of_refillBy_true hrefill
          obtain ⟨found, r₁, s₁, hending, hgood₁, hdone, hretry⟩ :=
            ih (answers.length - r''.cursor) (by omega) hgood rfl
          refine ⟨found, r₁, s₁, hending, hgood₁, ?_, fun he => (hretry he).trans hahead.symm⟩
          rcases hdone with hdone | ⟨he, hprogress⟩
          · exact .inl (hahead.trans hdone)
          · exact .inr ⟨he, .inl (by omega)⟩
      · rw [he]
        exact ⟨_, r', _, rfl, hgood, .inr ⟨⟨e, rfl⟩, .inr ⟨hcursor, hcursor ▸ hleft⟩⟩,
          fun _ => hagain⟩
    · exact ⟨_, _, s, seek_of_some source s hnext, hs, .inl (listed_of_some _ hnext), nofun⟩

/-- A search fails with an error that its source gave. -/
theorem exists_error_of_seek {e : ShuffleError} (source : ChunkSource σ) (r : BlockReader) (s : σ)
    (h : (seek source r s).found = .error e) : ∃ t k, (source.read t k).1 = .error e := by
  fun_induction seek source r s with
  | case1 r s segment r' hnext => cases h
  | case2 r s r' hnext e' r'' s' hrefill =>
    cases h
    unfold refill at hrefill
    refine ⟨s, r'.cursor, ?_⟩
    split at hrefill
    · rename_i hread
      cases hrefill
      rw [hread]
    · cases hrefill
    · split at hrefill <;> cases hrefill
  | case3 r s r' hnext r'' s' hrefill => cases h
  | case4 r s r' hnext r'' s' hrefill rest ih => exact ih h

/-! ### One call -/

/-- Whether a call has failed with its source, and not on the bytes of a block. -/
def Call.sourceFailed (c : Call) : Bool :=
  match c.delivered, c.outcome with
  | none, .error _ => true
  | _, _ => false

/-- The answer to a call that has found a copy, or has found that nothing is left. -/
def answerWith : Option StoredCopy → Outcome
  | none => .ok none
  | some c => c.block.map some

/-- A call either passes on a failure of the source or answers with what it has found. -/
theorem call_cases {c : Call} (hexpected : r.expected.isEmpty = false)
    (hcall : call source r s = (c, r', s')) :
    (∃ e, (seek source r s).ending = (.error e, r', s') ∧ c.sourceFailed = true ∧
      c.outcome = .error e) ∨
    ∃ found, (seek source r s).ending = (.ok found, r', s') ∧ c.sourceFailed = false ∧
      c.outcome = answerWith found := by
  rw [call_eq hexpected] at hcall
  cases hcall
  rcases hfound : (seek source r s).found with e | _ | d
  · left
    exact ⟨e, by rw [Search.ending, hfound],
      by simp only [Call.sourceFailed, Search.delivered, Search.outcome, hfound],
      by rw [Search.outcome, hfound]⟩
  · right
    exact ⟨none, by rw [Search.ending, hfound],
      by simp only [Call.sourceFailed, Search.delivered, Search.outcome, hfound],
      by rw [Search.outcome, hfound]; rfl⟩
  · right
    exact ⟨some d, by rw [Search.ending, hfound],
      by simp only [Call.sourceFailed, Search.delivered, hfound],
      by rw [Search.outcome, hfound]; rfl⟩

/-- A call fails with its source on an error that the source gave. Otherwise its answer is that
nothing is left, or what a copy stands for. -/
theorem outcome_of_call {c : Call} (hcall : call source r s = (c, r', s')) :
    (c.sourceFailed = true → ∃ e t k, c.outcome = .error e ∧ (source.read t k).1 = .error e) ∧
    (c.sourceFailed = false → ∃ found, c.outcome = answerWith found) := by
  cases hexpected : r.expected.isEmpty with
  | true =>
    rw [call_of_isEmpty hexpected] at hcall
    cases hcall
    exact ⟨nofun, fun _ => ⟨none, rfl⟩⟩
  | false =>
    rcases call_cases hexpected hcall with ⟨e, hends, hfailed, houtcome⟩ | ⟨found, -, hfailed, h⟩
    · obtain ⟨t, k, hread⟩ := exists_error_of_seek source r s (congrArg Prod.fst hends)
      rw [hfailed]
      exact ⟨fun _ => ⟨e, t, k, houtcome, hread⟩, nofun⟩
    · rw [hfailed]
      exact ⟨nofun, fun _ => ⟨found, h⟩⟩

/-- What a call comes to from a source that answers by a list, and the reader after it. -/
def reliable (answers : List ChunkAnswer) (r : BlockReader) :
    Except ShuffleError (Option StoredCopy) × BlockReader :=
  if r.expected.isEmpty then (.ok none, r) else ahead answers r

/-- **One call.** A call that does not fail with its source answers as it would from the list. If it
fails, the next call is what this one would have been; and unless the list itself holds a failure,
fewer failures are left for the chunk, or fewer chunks. -/
theorem call_of_recovers (h : source.Recovers good left answers) (hs : good s) {c : Call}
    (hcall : call source r s = (c, r', s')) : good s' ∧
      (c.sourceFailed = false →
        ∃ found, reliable answers r = (.ok found, r') ∧ c.outcome = answerWith found) ∧
      (c.sourceFailed = true → reliable answers r' = reliable answers r ∧
        ((∃ e, (reliable answers r).1 = .error e) ∨
          answers.length - r'.cursor < answers.length - r.cursor ∨
          r'.cursor = r.cursor ∧ left s' r.cursor < left s r.cursor)) := by
  cases hexpected : r.expected.isEmpty with
  | true =>
    rw [call_of_isEmpty hexpected] at hcall
    cases hcall
    exact ⟨hs, fun _ => ⟨none, by rw [reliable, if_pos hexpected], rfl⟩, nofun⟩
  | false =>
    have hexpected' : r'.expected.isEmpty = false := by
      rw [(call_spec hcall).2.expected, expected_lookAll, hexpected]
    have hahead {q : BlockReader} (hq : q.expected.isEmpty = false) :
        reliable answers q = ahead answers q := by
      rw [reliable, hq]
      rfl
    rw [hahead hexpected, hahead hexpected']
    obtain ⟨found, r₁, s₁, hending, hgood, hdone, hretry⟩ := seek_of_recovers (r := r) h hs
    rcases call_cases hexpected hcall with ⟨e, hfails, hfailed, -⟩ | ⟨d, hfound, hfailed, houtcome⟩
    · cases hending.symm.trans hfails
      refine ⟨hgood, fun h => (nomatch hfailed.symm.trans h), fun _ => ⟨hretry ⟨e, rfl⟩, ?_⟩⟩
      rcases hdone with hdone | ⟨-, hprogress⟩
      · exact .inl ⟨e, by rw [hdone]⟩
      · exact .inr hprogress
    · cases hending.symm.trans hfound
      refine ⟨hgood, fun _ => ⟨d, ?_, houtcome⟩, fun h => (nomatch hfailed.symm.trans h)⟩
      rcases hdone with hdone | ⟨⟨e, he⟩, -⟩
      · exact hdone
      · cases he

/-! ### Calls that are made again -/

/-- A call that is made again as long as it fails with the source, and its answer in the end. -/
inductive Retried (source : ChunkSource σ) :
    BlockReader → σ → Outcome → BlockReader → σ → Prop
  | done {r r' : BlockReader} {s s' : σ} {c : Call} (hcall : call source r s = (c, r', s'))
    (hfailed : c.sourceFailed = false) : Retried source r s c.outcome r' s'
  | again {r r₁ r' : BlockReader} {s s₁ s' : σ} {c : Call} {o : Outcome}
    (hcall : call source r s = (c, r₁, s₁)) (hfailed : c.sourceFailed = true)
    (hrest : Retried source r₁ s₁ o r' s') : Retried source r s o r' s'

/-- The answers to any number of calls in order, where a call that fails with the source is made
again. -/
inductive Results (source : ChunkSource σ) :
    BlockReader → σ → List Outcome → BlockReader → σ → Prop
  | nil {r : BlockReader} {s : σ} : Results source r s [] r s
  | cons {r r₁ r' : BlockReader} {s s₁ s' : σ} {o : Outcome} {os : List Outcome}
    (hfirst : Retried source r s o r₁ s₁) (hrest : Results source r₁ s₁ os r' s') :
    Results source r s (o :: os) r' s'

/-- The answers to calls, those left out that failed with the source. -/
def answered (cs : List Call) : List Outcome := (cs.filter (!·.sourceFailed)).map (·.outcome)

theorem reliable_of_retried {o : Outcome} (h : source.Recovers good left answers) (hs : good s)
    (hr : Retried source r s o r' s') : good s' ∧
      ∃ found, reliable answers r = (.ok found, r') ∧ o = answerWith found := by
  induction hr with
  | done hcall hfailed =>
    obtain ⟨hgood, hanswered, -⟩ := call_of_recovers h hs hcall
    exact ⟨hgood, hanswered hfailed⟩
  | again hcall hfailed hrest ih =>
    obtain ⟨hgood, -, hagain⟩ := call_of_recovers h hs hcall
    rw [← (hagain hfailed).1]
    exact ih hgood

/-- Failures come to an end, unless the list itself holds one. -/
theorem exists_retried (h : source.Recovers good left answers) {r r' : BlockReader} {s : σ}
    (hs : good s) {found : Option StoredCopy} (hfound : reliable answers r = (.ok found, r')) :
    ∃ s', Retried source r s (answerWith found) r' s' := by
  rcases hcall : call source r s with ⟨c, r₁, s₁⟩
  obtain ⟨hgood, hanswered, hagain⟩ := call_of_recovers h hs hcall
  cases hfailed : c.sourceFailed with
  | false =>
    obtain ⟨found', hfound', houtcome⟩ := hanswered hfailed
    cases hfound.symm.trans hfound'
    exact ⟨s₁, houtcome ▸ .done hcall hfailed⟩
  | true =>
    obtain ⟨hsame, ⟨e, he⟩ | hfewer | ⟨hcursor, hleft⟩⟩ := hagain hfailed
    · rw [hfound] at he
      cases he
    · obtain ⟨s', hrest⟩ := exists_retried h hgood (hsame.trans hfound)
      exact ⟨s', .again hcall hfailed hrest⟩
    · obtain ⟨s', hrest⟩ := exists_retried h hgood (hsame.trans hfound)
      exact ⟨s', .again hcall hfailed hrest⟩
termination_by (answers.length - r.cursor, left s r.cursor)
decreasing_by
  · exact Prod.Lex.left _ _ hfewer
  · rw [hcursor]
    exact Prod.Lex.right _ hleft

/-! ### Two sources with one list -/

variable {τ : Type} {source' : ChunkSource τ} {good' : τ → Prop} {left' : τ → Nat → Nat}
  {os : List Outcome} {t t' : τ}

/-- What one source answers in the end, another one answers that goes by the same list. -/
theorem Results.other (h : source.Recovers good left answers)
    (h' : source'.Recovers good' left' answers) (hs : good s) (ht : good' t)
    (hr : Results source r s os r' s') : ∃ t', Results source' r t os r' t' := by
  induction hr generalizing t with
  | nil => exact ⟨t, .nil⟩
  | cons hfirst hrest ih =>
    obtain ⟨hgood, found, hfound, rfl⟩ := reliable_of_retried h hs hfirst
    obtain ⟨t₁, hfirst'⟩ := exists_retried h' ht hfound
    obtain ⟨t', hrest'⟩ := ih hgood (reliable_of_retried h' ht hfirst').1
    exact ⟨t', .cons hfirst' hrest'⟩

/-! ### Runs up to the end -/

/-- Answers up to the first that nothing is left. -/
def UpToEnd (os : List Outcome) : Prop := ∃ init, os = init ++ [.ok none] ∧ .ok none ∉ init

theorem upToEnd_cons {o : Outcome} :
    UpToEnd (o :: os) ↔ (o = .ok none ∧ os = []) ∨ (o ≠ .ok none ∧ UpToEnd os) := by
  constructor
  · rintro ⟨init, hinit, hmem⟩
    cases init with
    | nil =>
      cases hinit
      exact .inl ⟨rfl, rfl⟩
    | cons a init =>
      rw [List.cons_append, List.cons.injEq] at hinit
      obtain ⟨rfl, rfl⟩ := hinit
      rw [List.mem_cons, not_or] at hmem
      exact .inr ⟨Ne.symm hmem.1, init, rfl, hmem.2⟩
  · rintro (⟨rfl, rfl⟩ | ⟨hne, init, rfl, hmem⟩)
    · exact ⟨[], rfl, nofun⟩
    · exact ⟨o :: init, rfl, List.not_mem_cons_of_ne_of_not_mem (Ne.symm hne) hmem⟩

theorem answered_cons_of_failed {c : Call} (h : c.sourceFailed = true) (cs : List Call) :
    answered (c :: cs) = answered cs := by
  simp [answered, h]

theorem answered_cons {c : Call} (h : c.sourceFailed = false) (cs : List Call) :
    answered (c :: cs) = c.outcome :: answered cs := by
  simp [answered, h]

/-- From a source that never fails no call is left out. -/
theorem answered_eq_map {cs : List Call} (hnever : ∀ t k e, (source.read t k).1 ≠ .error e)
    (h : Reads source r s cs r' s') : answered cs = cs.map (·.outcome) := by
  have hanswered {q q' : BlockReader} {t t' : σ} {c : Call}
      (hcall : call source q t = (c, q', t')) : c.sourceFailed = false := by
    apply Bool.eq_false_iff.2
    intro hfailed
    obtain ⟨e, u, k, -, hread⟩ := (outcome_of_call hcall).1 hfailed
    exact hnever u k e hread
  induction h with
  | last hcall _ => rw [answered_cons (hanswered hcall), List.map_cons]; rfl
  | more hcall _ _ ih => rw [answered_cons (hanswered hcall), List.map_cons, ih]

theorem outcome_ne_of_sourceFailed {c : Call} (h : c.sourceFailed = true) :
    c.outcome ≠ .ok none := by
  intro houtcome
  unfold Call.sourceFailed at h
  rw [houtcome] at h
  split at h <;> simp_all

/-- The answers in a run up to the end, those left out that failed with the source. -/
theorem Reads.results {cs : List Call} (h : Reads source r s cs r' s') :
    Results source r s (answered cs) r' s' ∧ UpToEnd (answered cs) := by
  induction h with
  | last hcall hnone =>
    rename_i c _ _
    have hfailed : c.sourceFailed = false :=
      Bool.eq_false_iff.2 fun h => outcome_ne_of_sourceFailed h hnone
    rw [answered_cons hfailed]
    exact ⟨.cons (.done hcall hfailed) .nil, upToEnd_cons.2 (.inl ⟨hnone, rfl⟩)⟩
  | more hcall hsome hrest ih =>
    rename_i c _ _ cs _ _
    obtain ⟨hresults, hend⟩ := ih
    cases hfailed : c.sourceFailed with
    | false =>
      rw [answered_cons hfailed]
      exact ⟨.cons (.done hcall hfailed) hresults, upToEnd_cons.2 (.inr ⟨hsome, hend⟩)⟩
    | true =>
      -- the call is made again, and what it answers then is the first answer of the rest
      rw [answered_cons_of_failed hfailed]
      refine ⟨?_, hend⟩
      generalize answered cs = os at hresults hend
      cases hresults with
      | nil => simp [UpToEnd] at hend
      | cons hfirst hrest => exact .cons (.again hcall hfailed hfirst) hrest

theorem Retried.exists_last {o : Outcome} (h : Retried source r s o r' s') (hnone : o = .ok none) :
    ∃ cs, Reads source r s cs r' s' ∧ answered cs = [o] := by
  induction h with
  | done hcall hfailed =>
    exact ⟨_, .last hcall hnone, answered_cons hfailed []⟩
  | again hcall hfailed hrest ih =>
    obtain ⟨cs, hreads, hcs⟩ := ih hnone
    exact ⟨_, .more hcall (outcome_ne_of_sourceFailed hfailed) hreads,
      (answered_cons_of_failed hfailed cs).trans hcs⟩

theorem Retried.exists_more {o : Outcome} {r₁ : BlockReader} {s₁ : σ} {cs : List Call}
    (h : Retried source r s o r₁ s₁) (hsome : o ≠ .ok none) (hreads : Reads source r₁ s₁ cs r' s') :
    ∃ ds, Reads source r s ds r' s' ∧ answered ds = o :: answered cs := by
  induction h with
  | done hcall hfailed =>
    exact ⟨_, .more hcall hsome hreads, answered_cons hfailed cs⟩
  | again hcall hfailed hrest ih =>
    obtain ⟨ds, hreads', hds⟩ := ih hsome hreads
    exact ⟨_, .more hcall (outcome_ne_of_sourceFailed hfailed) hreads',
      (answered_cons_of_failed hfailed ds).trans hds⟩

/-- Answers up to the end are those of a run. -/
theorem Results.exists_reads (h : Results source r s os r' s') (hend : UpToEnd os) :
    ∃ cs, Reads source r s cs r' s' ∧ answered cs = os := by
  induction h with
  | nil => simp [UpToEnd] at hend
  | cons hfirst hrest ih =>
    rcases upToEnd_cons.1 hend with ⟨hnone, rfl⟩ | ⟨hsome, hend⟩
    · cases hrest
      exact hfirst.exists_last hnone
    · obtain ⟨cs, hreads, rfl⟩ := ih hend
      exact hfirst.exists_more hsome hreads

/-- A run up to the end against another source that goes by the same list. -/
theorem Reads.other {cs : List Call} (h : source.Recovers good left answers)
    (h' : source'.Recovers good' left' answers) (hs : good s) (ht : good' t)
    (hr : Reads source r s cs r' s') :
    ∃ ds t', Reads source' r t ds r' t' ∧ answered ds = answered cs := by
  obtain ⟨hresults, hend⟩ := hr.results
  obtain ⟨t', hresults'⟩ := hresults.other h h' hs ht
  obtain ⟨ds, hreads, hds⟩ := hresults'.exists_reads hend
  exact ⟨ds, t', hreads, hds⟩

/-- From a list without failures a reader comes to the end, and no call fails with the source. -/
theorem exists_reads_recorded (chunks : List (Option Chunk)) (r : BlockReader) (log : AccessLog) :
    ∃ cs r' log', Reads (.recorded (chunks.map .ok)) r log cs r' log' ∧
      answered cs = cs.map (·.outcome) := by
  have hanswers := answers_recorded chunks
  obtain ⟨cs, r', log', hreads⟩ :
      ∃ cs r' log', Reads (.recorded (chunks.map .ok)) r log cs r' log' := by
    cases hexpected : r.expected.isEmpty with
    | true => exact ⟨_, _, _, reads_of_isEmpty _ log hexpected⟩
    | false =>
      obtain ⟨cs, r', log', hreads, -⟩ := reads_of_answers hanswers (s := log) trivial hexpected
      exact ⟨cs, r', log', hreads⟩
  refine ⟨cs, r', log', hreads, answered_eq_map (fun t k e hread => ?_) hreads⟩
  rw [(hanswers t k trivial).1] at hread
  cases hread

/-- **Failures lose and repeat nothing.** Take a list of answers, and a source that goes by the list
except that each number may first fail any finite number of times. Compare any reader that reads
from it with the same reader that reads from the list.

* Both give the same answers in the same order, if a call is made again that fails with its source,
  and after each answer the reader is the same.
* So if one of them comes to the end, the other does, with the same answers, and the reader at the
  end is the same: what it has seen, and what the check says.
* If the list holds no failures, both come to the end, and the calls against the list are answered
  one by one by the calls that do not fail with the source.
* A call that is left out fails with an error that the source gave. One that is not left out finds
  that nothing is left, or answers with what a copy stands for. -/
theorem answers_despite_failures (h : source.Recovers good left answers) (hs : good s)
    (r : BlockReader) (log : AccessLog) :
    (∀ os r', (∃ s', Results source r s os r' s') ↔
      ∃ log', Results (.recorded answers) r log os r' log') ∧
    (∀ ds r' s', Reads source r s ds r' s' →
      ∃ cs log', Reads (.recorded answers) r log cs r' log' ∧ answered cs = answered ds) ∧
    (∀ cs r' log', Reads (.recorded answers) r log cs r' log' →
      ∃ ds s', Reads source r s ds r' s' ∧ answered ds = answered cs) ∧
    (∀ chunks : List (Option Chunk), answers = chunks.map .ok →
      ∃ cs ds r' log' s', Reads (.recorded answers) r log cs r' log' ∧
        Reads source r s ds r' s' ∧ answered ds = cs.map (·.outcome)) ∧
    ∀ q t c q' t', call source q t = (c, q', t') →
      (c.sourceFailed = true → ∃ e u k, c.outcome = .error e ∧ (source.read u k).1 = .error e) ∧
      (c.sourceFailed = false → ∃ found, c.outcome = answerWith found) := by
  have hlist := recovers_recorded answers
  refine ⟨fun os r' => ⟨?_, ?_⟩, fun ds r' s' hreads => ?_, fun cs r' log' hreads => ?_, ?_,
    fun _ _ _ _ _ => outcome_of_call⟩
  · rintro ⟨s', hresults⟩
    exact hresults.other h hlist hs trivial
  · rintro ⟨log', hresults⟩
    exact hresults.other hlist h trivial hs
  · exact hreads.other h hlist hs trivial
  · exact hreads.other hlist h trivial hs
  · rintro chunks rfl
    obtain ⟨cs, r', log', hreads, hcs⟩ := exists_reads_recorded chunks r log
    obtain ⟨ds, s', hreads', hds⟩ := hreads.other hlist h trivial hs
    exact ⟨cs, ds, r', log', s', hreads, hreads', hds.trans hcs⟩

/-- Two chunks, the first of which ends with a copy that is passed over. The storage fails twice
before it, and once before the second chunk and before the end. -/
theorem answers_despite_failures_before_each_chunk :
    let ids : IdBitmap := .ofSet (.ofIds [1, 2097153])
    let chunks : List (Option Chunk) :=
      [some ⟨[97], [⟨1, 0, 0, 7, 0, 1⟩, ⟨1, 0, 1, 1, 0, 1⟩]⟩,
        some ⟨[98], [⟨2097153, 0, 0, 8, 0, 1⟩]⟩]
    let faults : Nat → List ShuffleError := fun k =>
      if k = 0 then [.storage "Not ready", .storage "Still not ready"] else [.storage "Gone"]
    ∃ r ds r' s', start? .standard ids (.ofIds [1]) = some r ∧
      Reads (.failing (chunks.map .ok)) r faults ds r' s' ∧
      answered ds = [.ok (some ⟨[], 7⟩), .ok (some ⟨[], 8⟩), .ok none] := by
  intro ids chunks faults
  obtain ⟨r, hstart⟩ := exists_start .standard (show ids.hollow = [] from rfl) (.ofIds [1])
  obtain ⟨-, -, -, hends, -⟩ :=
    answers_despite_failures (recovers_failing (chunks.map .ok)) (s := faults) trivial r ⟨[], 0⟩
  obtain ⟨cs, ds, r', log', s', hreads, hreads', hds⟩ := hends chunks rfl
  have h1 : IdSet.key 1 = 1 := by decide
  have h2 : IdSet.key 2097153 = 2097153 := by decide
  have hexpected (x : Nat) : x ∈ expectedOf .standard ids.set (.ofIds [1]) ↔
      x = 1 ∨ x = 2097153 := by
    rw [mem_expectedOf]
    constructor
    · rintro ⟨h, -⟩
      simpa [ids, h1, h2, eq_comm] using h
    · rintro (rfl | rfl) <;> exact ⟨by simp [ids, h1, h2], by simp; decide⟩
  have hne := IdSet.ne_empty_of_mem ((hexpected 1).2 (.inl rfl))
  have hdue : due .standard ids.set (.ofIds [1]) (stock chunks) =
      [⟨[97], ⟨1, 0, 0, 7, 0, 1⟩⟩, ⟨[98], ⟨2097153, 0, 0, 8, 0, 1⟩⟩] := by
    simp [due, stock, chunks, Chunk.copies, firstPer, StoredCopy.key, StoredCopy.taskKey, h1,
      h2, hexpected]
  obtain ⟨cs', _, _, hreads'', -, houtcomes, -⟩ :=
    reads_of_start (answers_recorded chunks) (s := ⟨[], 0⟩) trivial hstart hne
  have hcrc : Crc32.checksum [] = 0 := by decide +kernel
  refine ⟨r, ds, r', s', hstart, hreads', ?_⟩
  rw [hds, (hreads.unique hreads'').1, houtcomes, hdue]
  simp [StoredCopy.block, hcrc, Except.map]

end BlockReader

end ShuffleService
