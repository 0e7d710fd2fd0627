import Mathlib.Data.List.Induction
import ShuffleService.Proofs.TagIndex

/-!
# Which servers belong to a cluster

A server belongs to a cluster from its first heartbeat on, until a look for silent servers removes
it; after that it is admitted anew. Its node is the snapshot of the heartbeat that arrived last, and
the time of the node is the latest that any heartbeat since its admission has shown
(`Cluster.Heard`): clocks may go back, and a late heartbeat does not undo an earlier one.

`Cluster.SinceRemoval` cuts a run where the server was last removed, and `stands_since` says what
its node is by the heartbeats after the cut. `members_of_run` puts this together with what a look
for silent servers removes.
-/

namespace ShuffleService

namespace Cluster

variable {c : Cluster} {id : String} {now timeout : Int} {node : ServerNode}

/-! ### What an event does to a node -/

/-- A heartbeat gives its server a new node, whose time is never before the one of the old node. -/
theorem node?_update : (c.update now node).node? id =
    if id = node.id then
      some { node with timestamp := ((c.node? id).map (max now ·.timestamp)).getD now }
    else c.node? id := by
  unfold update node?
  by_cases hid : id = node.id
  · subst hid
    cases c.nodes.find? node.id <;> simp
  · cases c.nodes.find? node.id <;> simp [hid]

theorem node?_remove (removed : String) :
    (c.remove removed).node? id = if id = removed then none else c.node? id := by
  unfold remove node?
  cases hfind : c.nodes.find? removed with
  | none =>
    by_cases hid : id = removed
    · rw [if_pos hid, hid]
      exact hfind
    · rw [if_neg hid]
  | some n => exact Table.find?_erase

theorem mem_expired : id ∈ c.expired now ↔
    ∃ n, c.node? id = some n ∧ c.timeout < now - n.timestamp := by
  unfold expired node?
  rw [Table.mem_keys_filter]
  simp only [ServerNode.isExpired, decide_eq_true_eq]

theorem nodup_expired : (c.expired now).Nodup :=
  (c.nodes.filter fun _ n => n.isExpired now c.timeout).nodup

/-- A look for silent servers removes those and no others. -/
theorem node?_removeExpired : (c.removeExpired now).2.node? id =
    if id ∈ c.expired now then none else c.node? id := by
  show ((c.expired now).foldl remove c).node? id = _
  generalize c.expired now = silent
  induction silent generalizing c with
  | nil => rfl
  | cons removed silent ih =>
    rw [List.foldl_cons, ih, node?_remove]
    by_cases hid : id = removed <;> simp [hid]

/-! ### The heartbeats of a server -/

/-- A heartbeat with the reading of the clock when it arrived. -/
structure Beat where
  reading : Int
  node : ServerNode

/-- The heartbeat of a server that an event is, if it is one. -/
def beat? (id : String) : ClusterEvent → Option Beat
  | .heartbeat now node => if node.id = id then some ⟨now, node⟩ else none
  | _ => none

/-- The heartbeats of a server, in the order in which they arrived. -/
def beats (id : String) (es : List ClusterEvent) : List Beat := es.filterMap (beat? id)

/-- A node is the snapshot of the last of some heartbeats, with the latest time that any of them has
shown. -/
structure Heard (beats : List Beat) (n : ServerNode) : Prop where
  latest : ∃ b, beats.getLast? = some b ∧ n = { b.node with timestamp := n.timestamp }
  shown : ∃ b ∈ beats, b.reading = n.timestamp
  reading_le : ∀ b ∈ beats, b.reading ≤ n.timestamp

theorem heard_singleton (b : Beat) : Heard [b] { b.node with timestamp := b.reading } where
  latest := ⟨b, rfl, rfl⟩
  shown := ⟨b, List.mem_singleton_self b, rfl⟩
  reading_le := fun _ hd => Int.le_of_eq (congrArg Beat.reading (List.mem_singleton.1 hd))

/-- One more heartbeat replaces the snapshot and can only move the time on. -/
theorem Heard.concat {hs : List Beat} {n : ServerNode} (h : Heard hs n) (b : Beat) :
    Heard (hs ++ [b]) { b.node with timestamp := max b.reading n.timestamp } where
  latest := ⟨b, List.getLast?_concat, rfl⟩
  shown := by
    obtain ⟨d, hd, hshown⟩ := h.shown
    rcases Int.le_total b.reading n.timestamp with hle | hle
    · exact ⟨d, List.mem_append_left _ hd, hshown.trans (Int.max_eq_right hle).symm⟩
    · exact ⟨b, List.mem_append_right _ (List.mem_singleton_self b), (Int.max_eq_left hle).symm⟩
  reading_le := fun d hd => by
    rcases List.mem_append.1 hd with hd | hd
    · exact Int.le_trans (h.reading_le d hd) (Int.le_max_right ..)
    · rw [List.mem_singleton.1 hd]
      exact Int.le_max_left ..

/-- What is kept of a server that has sent some heartbeats since its admission: no node without any,
and otherwise the node that they come to. -/
def Stands (hs : List Beat) : Option ServerNode → Prop
  | none => hs = []
  | some n => Heard hs n

/-- An event that does not remove a server keeps its node up to its heartbeats. -/
theorem Stands.after {hs : List Beat} (h : Stands hs (c.node? id)) (e : ClusterEvent)
    (hkept : ∀ now, e = .check now → id ∉ (c.removeExpired now).1) :
    Stands (hs ++ (beat? id e).toList) ((c.after e).node? id) := by
  cases e with
  | heartbeat now node =>
    show Stands _ ((c.update now node).node? id)
    rw [node?_update]
    by_cases hid : id = node.id
    · rw [if_pos hid, beat?, if_pos hid.symm]
      cases hnode : c.node? id with
      | none =>
        rw [hnode] at h
        rw [show hs = [] from h]
        exact heard_singleton ⟨now, node⟩
      | some previous =>
        rw [hnode] at h
        exact Heard.concat h ⟨now, node⟩
    · rw [if_neg hid, beat?, if_neg (Ne.symm hid), Option.toList_none, List.append_nil]
      exact h
  | check now =>
    have hstays : id ∉ c.expired now := hkept now rfl
    show Stands (hs ++ []) ((c.removeExpired now).2.node? id)
    rw [node?_removeExpired, if_neg hstays, List.append_nil]
    exact h
  | refresh content =>
    show Stands (hs ++ []) (c.node? id)
    rw [List.append_nil]
    exact h

/-! ### Since a server was last removed -/

/-- A run is cut where a server was last removed: the first part is empty or ends with its removal,
and in the second part it is not removed. -/
structure SinceRemoval (timeout : Int) (id : String) (past since : List ClusterEvent) : Prop where
  start : past = [] ∨ ∃ es now, past = es ++ [.check now] ∧
    id ∈ ((run timeout es).removeExpired now).1
  kept : ∀ es now rest, since = es ++ .check now :: rest →
    id ∉ ((run timeout (past ++ es)).removeExpired now).1

theorem run_concat (timeout : Int) (es : List ClusterEvent) (e : ClusterEvent) :
    run timeout (es ++ [e]) = (run timeout es).after e := List.foldl_append

/-- Every run can be cut where a server was last removed. -/
theorem exists_since (timeout : Int) (id : String) (es : List ClusterEvent) :
    ∃ past since, es = past ++ since ∧ SinceRemoval timeout id past since := by
  induction es using List.reverseRecOn with
  | nil => exact ⟨[], [], rfl, .inl rfl, fun es now rest h => by simp at h⟩
  | append_singleton es e ih =>
    by_cases hremoved : ∃ now, e = .check now ∧ id ∈ ((run timeout es).removeExpired now).1
    · obtain ⟨now, rfl, hmem⟩ := hremoved
      refine ⟨es ++ [.check now], [], by simp, .inr ⟨es, now, rfl, hmem⟩, fun es now rest h => ?_⟩
      simp at h
    · obtain ⟨past, since, rfl, hstart, hkept⟩ := ih
      refine ⟨past, since ++ [e], by simp, hstart, fun before now rest h => ?_⟩
      -- the look for silent servers is the new event, or one of those before it
      rcases List.eq_nil_or_concat rest with rfl | ⟨rest, last, rfl⟩
      · obtain ⟨rfl, he⟩ := List.append_inj' h rfl
        cases he
        exact fun hmem => hremoved ⟨now, rfl, hmem⟩
      · rw [List.concat_eq_append, ← List.cons_append, ← List.append_assoc] at h
        exact hkept before now rest (List.append_inj' h rfl).1

/-- After a run that was cut where a server was last removed, its node is the one that its
heartbeats since then come to. -/
theorem stands_since {past since : List ClusterEvent} (h : SinceRemoval timeout id past since) :
    Stands (beats id since) ((run timeout (past ++ since)).node? id) := by
  induction since using List.reverseRecOn with
  | nil =>
    rw [List.append_nil]
    rcases h.start with rfl | ⟨es, now, rfl, hmem⟩
    · rfl
    · have hnone : (run timeout (es ++ [.check now])).node? id = none := by
        rw [run_concat]
        exact node?_removeExpired.trans (if_pos hmem)
      rw [hnone]
      rfl
  | append_singleton since e ih =>
    have hbefore : SinceRemoval timeout id past since :=
      ⟨h.start, fun es now rest heq => h.kept es now (rest ++ [e]) (by simp [heq])⟩
    have hbeats : beats id (since ++ [e]) = beats id since ++ (beat? id e).toList := by
      cases hbeat : beat? id e <;> simp [beats, hbeat]
    rw [hbeats, ← List.append_assoc, run_concat]
    exact (ih hbefore).after e fun now he => h.kept since now [] (by rw [he])

/-- **Which servers belong to a cluster.** Take any run of heartbeats, looks for silent servers and
looks at the exclude file, with any readings of the clock. A server has a node just if a heartbeat
of it has arrived since it was last removed. The node is then the snapshot of the last of these
heartbeats as a whole, and its time is the latest that any of them has shown. A look for silent
servers returns each server whose time is further back than the timeout once, and removes these and
no others; so it leaves a server alone if any heartbeat since its admission has shown a time within
the timeout. -/
theorem members_of_run (timeout : Int) (es : List ClusterEvent) (id : String) :
    let c := run timeout es
    ∃ past since, es = past ++ since ∧ SinceRemoval timeout id past since ∧
      ((∃ n, c.node? id = some n) ↔ ∃ now node, .heartbeat now node ∈ since ∧ node.id = id) ∧
      (∀ n, c.node? id = some n → Heard (beats id since) n) ∧
      ∀ now, let removed := (c.removeExpired now).1
        removed.Nodup ∧
        (id ∈ removed ↔ ∃ n, c.node? id = some n ∧ timeout < now - n.timestamp) ∧
        (c.removeExpired now).2.node? id = (if id ∈ removed then none else c.node? id) ∧
        ((∃ b ∈ beats id since, now - b.reading ≤ timeout) → id ∉ removed) := by
  intro c
  obtain ⟨past, since, rfl, hsince⟩ := exists_since timeout id es
  have hstands : Stands (beats id since) (c.node? id) := stands_since hsince
  have htimeout : c.timeout = timeout := timeout_run timeout _
  have hheard (n : ServerNode) (hn : c.node? id = some n) : Heard (beats id since) n := by
    rwa [hn] at hstands
  have hbeats : (∃ now node, .heartbeat now node ∈ since ∧ node.id = id) ↔
      beats id since ≠ [] := by
    rw [beats, Ne, List.filterMap_eq_nil_iff]
    constructor
    · rintro ⟨now, node, hmem, rfl⟩ hnone
      simpa [beat?] using hnone _ hmem
    · intro hsome
      by_contra hnone
      refine hsome fun e he => ?_
      cases e with
      | heartbeat now node => exact if_neg fun hid => hnone ⟨now, node, he, hid⟩
      | check now => rfl
      | refresh content => rfl
  refine ⟨past, since, rfl, hsince, ?_, hheard, fun now => ⟨nodup_expired, ?_,
    node?_removeExpired, ?_⟩⟩
  · rw [hbeats]
    cases hnode : c.node? id with
    | none =>
      rw [hnode] at hstands
      have hnone : beats id since = [] := hstands
      simp [hnone]
    | some n =>
      obtain ⟨b, hb, -⟩ := (hheard n hnode).shown
      exact iff_of_true ⟨n, rfl⟩ (List.ne_nil_of_mem hb)
  · rw [← htimeout]
    exact mem_expired
  · rintro ⟨b, hb, hrecent⟩ hmem
    obtain ⟨n, hn, hsilent⟩ := mem_expired.1 hmem
    have hle := (hheard n hn).reading_le b hb
    rw [htimeout] at hsilent
    omega

end Cluster

end ShuffleService
