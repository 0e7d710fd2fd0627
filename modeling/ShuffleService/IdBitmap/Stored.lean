import ShuffleService.IdBitmap
import ShuffleService.IdBitmap.Container
import ShuffleService.Error

/-!
# The stored form as bytes

The bytes of a table are a byte that means nothing, the number of bitmaps, and for each bitmap in
ascending order its high half and the bitmap. `store` writes them and `load?` reads them.
-/

namespace ShuffleService.IdBitmap

open scoped PlainNumbers

/-- The bitmaps of a table by their high halves, ascending. -/
def entries (b : IdBitmap) : List (Nat × List Container) :=
  let runs := Std.HashSet.ofList b.runs
  let container (key : Nat) (xs : List Nat) : Container :=
    ⟨key % 2 ^ (16 : Nat), xs.map (· % 2 ^ (16 : Nat)), runs.contains key⟩
  let full := (groupByKey (fun e => e.1 / 2 ^ (16 : Nat)) (groupByKey containerOf b.set.toList)).map
    fun (high, es) => (high, es.map fun (key, xs) => container key xs)
  full.merge (b.hollow.map (·, [])) fun x y => x.1 ≤ y.1

/-- The bytes of a table. -/
def store (b : IdBitmap) : Bytes :=
  0 :: bigEndian 4 b.entries.length ++
    b.entries.flatMap fun (high, cs) => bigEndian 4 high ++ portable cs

/-- The last entry for each key, in the order of the entries, and the keys that they have. -/
def lastAndKeys (es : List (Nat × List Container)) :
    List (Nat × List Container) × Std.HashSet Nat :=
  es.foldr (fun e (later, keys) =>
    if keys.contains e.1 then (later, keys) else (e :: later, keys.insert e.1)) ([], ∅)

/-- The last entry for each key, in the order of the entries. -/
def lastOfEach (es : List (Nat × List Container)) : List (Nat × List Container) :=
  (lastAndKeys es).1

theorem lastAndKeys_cons (e : Nat × List Container) (es : List (Nat × List Container)) :
    lastAndKeys (e :: es) =
      if (lastAndKeys es).2.contains e.1 then lastAndKeys es
      else (e :: (lastAndKeys es).1, (lastAndKeys es).2.insert e.1) := rfl

theorem contains_lastAndKeys (es : List (Nat × List Container)) (k : Nat) :
    (lastAndKeys es).2.contains k = true ↔ ∃ e ∈ lastOfEach es, e.1 = k := by
  unfold lastOfEach
  induction es with
  | nil => simp [lastAndKeys]
  | cons e es ih =>
    rw [lastAndKeys_cons]
    split
    · exact ih
    · simp [ih]

@[simp] theorem lastOfEach_nil : lastOfEach [] = [] := rfl

theorem lastOfEach_cons (e : Nat × List Container) (es : List (Nat × List Container)) :
    lastOfEach (e :: es) =
      if (lastOfEach es).any (·.1 = e.1) then lastOfEach es else e :: lastOfEach es := by
  have h := contains_lastAndKeys es e.1
  unfold lastOfEach at h ⊢
  rw [lastAndKeys_cons]
  by_cases hc : (lastAndKeys es).2.contains e.1 = true
  · rw [if_pos hc, if_pos]
    simpa using h.1 hc
  · rw [if_neg hc, if_neg]
    rw [h] at hc
    simpa using hc

/-- The members of an entry. -/
def membersOf (e : Nat × List Container) : List Nat :=
  e.2.flatMap fun c => c.values.map fun v => (e.1 * 2 ^ (16 : Nat) + c.key) * 2 ^ (16 : Nat) + v

/-- The table with the given entries. Of entries for the same high half the last one counts. -/
def ofEntries (es : List (Nat × List Container)) : IdBitmap :=
  let es := lastOfEach es
  assemble (.ofList (es.flatMap membersOf)) (es.map (·.1)) <|
    es.flatMap fun e => (e.2.filter (·.asRuns)).map fun c => e.1 * 2 ^ (16 : Nat) + c.key

/-- What may go wrong in reading the entries of a table. -/
inductive ReadFault
  /-- The bytes are no table. -/
  | malformed
  /-- The next entry is looked for beyond the end of the bytes. -/
  | overrun
  deriving DecidableEq, Repr

/-- Read an entry. The next one is looked for where the bitmap would end if it were written anew,
which is not where it was read to if it announced runs and had none. -/
def readEntry (bs : Bytes) : Except ReadFault ((Nat × List Container) × Bytes) :=
  match takeBigWord? 4 bs with
  | none => .error .malformed
  | some (high, bs) =>
    match readPortable? bs with
    | none => .error .malformed
    | some (cs, _) =>
      match takeBytes? (portable cs).length bs with
      | none => .error .overrun
      | some (_, bs) => .ok ((high, cs), bs)

/-- Read the given number of entries. Bytes after the last one are not looked at. -/
def readEntries : (count : Nat) → Bytes → Except ReadFault (List (Nat × List Container))
  | 0, _ => .ok []
  | n + 1, bs => do
    let (e, bs) ← readEntry bs
    let es ← readEntries n bs
    return e :: es

/-- Read the entries of a whole table. -/
def readTable (bs : Bytes) : Except ReadFault (List (Nat × List Container)) :=
  match takeBytes? 1 bs with
  | none => .error .malformed
  | some (_, bs) =>
    match takeBigWord? 4 bs with
    | none => .error .malformed
    | some (count, bs) => readEntries count bs

/-- The table that bytes stand for. No bytes at all stand for the empty table. Bytes in which an
entry is looked for beyond their end have no answer. -/
def load? (bs : Bytes) : Option (Except ShuffleError IdBitmap) :=
  if bs = [] then some (.ok ∅)
  else
    match readTable bs with
    | .ok es => some (.ok (ofEntries es))
    | .error .malformed => some (.error .malformedBitmap)
    | .error .overrun => none

end ShuffleService.IdBitmap
