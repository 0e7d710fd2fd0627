import ShuffleService.Cluster

/-!
# The index of tags

The servers that carry a tag are kept in an index beside the table of nodes. A heartbeat enters and
removes its server only under the tags by which it differs from the heartbeat before it, a removal
takes the server from under the tags of its last heartbeat. `Cluster.Indexed` says that the index
nevertheless tells of each tag exactly which nodes carry it. Each event preserves this
(`Indexed.after`), so it holds after any run, and the servers that can be chosen for some tags are
found through the index (`eligible_iff_listed`).
-/

namespace ShuffleService

theorem NameSet.isEmpty_eq_false_iff {s : NameSet} : s.isEmpty = false ↔ ∃ x, x ∈ s := by
  simp only [isEmpty, ← mem_toList]
  cases s.toList <;> simp

/-- Something that happens to the servers of a cluster: the heartbeat of one of them, a look for
silent ones, or a look at the exclude file. The time may be any, also one before that of an earlier
event. -/
inductive ClusterEvent
  | heartbeat (now : Int) (node : ServerNode)
  | check (now : Int)
  | refresh (content : Option Bytes)

namespace Cluster

variable {c : Cluster} {index : Table String NameSet} {tag server t id : String} {tags : NameSet}
  {now timeout : Int}

/-! ### Entering and removing -/

/-- The servers that an index has under a tag. -/
def listed (index : Table String NameSet) (tag : String) : NameSet := (index.find? tag).getD ∅

/-- No tag has an empty set. -/
def Occupied (index : Table String NameSet) : Prop :=
  ∀ tag servers, index.find? tag = some servers → servers.isEmpty = false

theorem mem_listed : id ∈ listed index tag ↔ ∃ servers, index.find? tag = some servers ∧
    id ∈ servers := by
  unfold listed
  cases index.find? tag <;> simp

/-- Leaving out empty sets changes nothing for the servers listed. -/
theorem mem_getD_filter {o : Option NameSet} :
    id ∈ (o.filter (!·.isEmpty)).getD ∅ ↔ id ∈ o.getD ∅ := by
  cases o with
  | none => rfl
  | some servers =>
    cases hempty : servers.isEmpty with
    | false => simp [Option.filter, hempty]
    | true =>
      have hnone : id ∉ servers := fun h => by
        rw [NameSet.isEmpty_eq_false_iff.2 ⟨id, h⟩] at hempty
        cases hempty
      simp [Option.filter, hempty, hnone]

theorem find?_indexTag : (indexTag index tag server).find? t =
    if t = tag then some ((listed index tag).insert server) else index.find? t :=
  Table.find?_insert

/-- A tag is removed with its last server. -/
theorem find?_unindexTag : (unindexTag index tag server).find? t =
    if t = tag then ((index.find? tag).map (·.erase server)).filter (!·.isEmpty)
    else index.find? t := by
  unfold unindexTag
  cases hfind : index.find? tag with
  | none =>
    by_cases ht : t = tag
    · rw [if_pos ht, ht]
      exact hfind
    · rw [if_neg ht]
  | some servers =>
    cases hempty : (servers.erase server).isEmpty <;> simp [Option.filter, hempty]

theorem mem_indexTag : id ∈ listed (indexTag index tag server) t ↔
    (t = tag ∧ id = server) ∨ id ∈ listed index t := by
  rw [listed, find?_indexTag]
  split
  · rename_i h
    simp [h]
  · rename_i h
    simp [h, listed]

theorem mem_unindexTag : id ∈ listed (unindexTag index tag server) t ↔
    id ∈ listed index t ∧ ¬ (t = tag ∧ id = server) := by
  rw [listed, find?_unindexTag]
  split
  · rename_i h
    rw [mem_getD_filter, h, listed]
    cases index.find? tag <;> simp
  · rename_i h
    simp [h, listed]

theorem Occupied.indexTag (h : Occupied index) (tag server : String) :
    Occupied (indexTag index tag server) := by
  intro t servers ht
  rw [find?_indexTag] at ht
  split at ht
  · cases ht
    exact NameSet.isEmpty_eq_false_iff.2 ⟨server, NameSet.mem_insert.2 (.inl rfl)⟩
  · exact h t servers ht

theorem Occupied.unindexTag (h : Occupied index) (tag server : String) :
    Occupied (unindexTag index tag server) := by
  intro t servers ht
  rw [find?_unindexTag] at ht
  split at ht
  · exact Bool.not_eq_true' _ ▸ (Option.filter_eq_some_iff.1 ht).2
  · exact h t servers ht

theorem mem_indexTags : id ∈ listed (indexTags index tags server) t ↔
    (t ∈ tags ∧ id = server) ∨ id ∈ listed index t := by
  rw [← NameSet.mem_toList (s := tags)]
  unfold indexTags
  induction tags.toList generalizing index with
  | nil => simp
  | cons tag tags ih =>
    rw [List.foldl_cons, ih, mem_indexTag, List.mem_cons, or_and_right]
    exact or_left_comm.trans or_assoc.symm

theorem mem_unindexTags : id ∈ listed (unindexTags index tags server) t ↔
    id ∈ listed index t ∧ ¬ (t ∈ tags ∧ id = server) := by
  rw [← NameSet.mem_toList (s := tags)]
  unfold unindexTags
  induction tags.toList generalizing index with
  | nil => simp
  | cons tag tags ih =>
    rw [List.foldl_cons, ih, mem_unindexTag, List.mem_cons, or_and_right, not_or, and_assoc]

theorem Occupied.indexTags (h : Occupied index) : Occupied (indexTags index tags server) :=
  List.foldlRecOn _ _ h fun _ h tag _ => h.indexTag tag server

theorem Occupied.unindexTags (h : Occupied index) : Occupied (unindexTags index tags server) :=
  List.foldlRecOn _ _ h fun _ h tag _ => h.unindexTag tag server

/-! ### Events -/

/-- The cluster after an event. -/
def after (c : Cluster) : ClusterEvent → Cluster
  | .heartbeat now node => c.update now node
  | .check now => (c.removeExpired now).2
  | .refresh content => c.refreshExclude content

/-- A cluster without servers. -/
def start (timeout : Int) : Cluster where
  timeout := timeout

/-- Let one thing happen after the other. -/
def run (timeout : Int) (es : List ClusterEvent) : Cluster := es.foldl after (start timeout)

/-- Each node is kept under its id, and the index has under each tag the nodes that carry it. -/
structure Indexed (c : Cluster) : Prop where
  named : ∀ id n, c.nodes.find? id = some n → n.id = id
  listed : ∀ tag id, id ∈ listed c.tagIndex tag ↔ ∃ n, c.nodes.find? id = some n ∧ tag ∈ n.tags
  occupied : Occupied c.tagIndex

theorem indexed_start (timeout : Int) : (start timeout).Indexed where
  named := fun _ _ h => nomatch h
  listed := fun _ id => iff_of_false (NameSet.not_mem_empty id) fun ⟨_, h, _⟩ => nomatch h
  occupied := fun _ _ h => nomatch h

/-- A node takes the place of the one that was there, if any, and the index is right about it and
unchanged for the others. -/
theorem Indexed.put (hc : c.Indexed) {n : ServerNode} (hn : n.id = id) (hoccupied : Occupied index)
    (hlisted : ∀ tag x, x ∈ Cluster.listed index tag ↔
      if x = id then tag ∈ n.tags else x ∈ Cluster.listed c.tagIndex tag) :
    { c with nodes := c.nodes.insert id n, tagIndex := index }.Indexed where
  named := fun x m h => by
    have h : (c.nodes.insert id n).find? x = some m := h
    rw [Table.find?_insert] at h
    split at h
    · rename_i hx
      cases h
      exact hn.trans hx.symm
    · exact hc.named x m h
  listed := fun tag x => by
    show x ∈ Cluster.listed index tag ↔ ∃ m, (c.nodes.insert id n).find? x = some m ∧ tag ∈ m.tags
    rw [hlisted, Table.find?_insert]
    split
    · simp
    · exact hc.listed tag x
  occupied := hoccupied

theorem Indexed.update (hc : c.Indexed) (now : Int) (node : ServerNode) :
    (c.update now node).Indexed := by
  unfold Cluster.update
  cases hfind : c.nodes.find? node.id with
  | some previous =>
    -- the server stays under the tags that both heartbeats have
    refine hc.put rfl hc.occupied.unindexTags.indexTags fun tag x => ?_
    have hold := hc.listed tag x
    rw [mem_indexTags, mem_unindexTags, NameSet.mem_diff, NameSet.mem_diff]
    split
    · rename_i hx
      subst hx
      simp only [hfind, Option.some.injEq, exists_eq_left'] at hold
      rw [hold]
      by_cases hnew : tag ∈ node.tags <;> by_cases hprevious : tag ∈ previous.tags <;>
        simp [hnew, hprevious]
    · rename_i hx
      simp [hx]
  | none =>
    refine hc.put rfl hc.occupied.indexTags fun tag x => ?_
    have hold := hc.listed tag x
    rw [mem_indexTags]
    split
    · rename_i hx
      subst hx
      simp only [hfind, reduceCtorEq, false_and, exists_false, iff_false] at hold
      simp [hold]
    · rename_i hx
      simp [hx]

/-- A heartbeat brings its server in, or up to date, with the tags that it tells of. -/
theorem exists_node_update (c : Cluster) (now : Int) (node : ServerNode) :
    ∃ n, (c.update now node).node? node.id = some n ∧ n.tags = node.tags := by
  unfold update node?
  cases c.nodes.find? node.id <;> exact ⟨_, Table.find?_insert.trans (if_pos rfl), rfl⟩

theorem Indexed.remove (hc : c.Indexed) (id : String) : (c.remove id).Indexed := by
  unfold Cluster.remove
  cases hfind : c.nodes.find? id with
  | none => exact hc
  | some node =>
    refine ⟨fun x m h => ?_, fun tag x => ?_, hc.occupied.unindexTags⟩
    · have h : (c.nodes.erase id).find? x = some m := h
      rw [Table.find?_erase] at h
      split at h
      · cases h
      · exact hc.named x m h
    · show x ∈ Cluster.listed (Cluster.unindexTags c.tagIndex node.tags id) tag ↔
        ∃ m, (c.nodes.erase id).find? x = some m ∧ tag ∈ m.tags
      rw [mem_unindexTags, hc.listed, Table.find?_erase]
      split
      · rename_i hx
        subst hx
        simp [hfind]
      · rename_i hx
        simp [hx]

/-- Each event keeps the index right. -/
theorem Indexed.after (hc : c.Indexed) (e : ClusterEvent) : (c.after e).Indexed := by
  cases e with
  | heartbeat now node => exact hc.update now node
  | check now => exact List.foldlRecOn _ _ hc fun _ hc id _ => hc.remove id
  | refresh content => exact ⟨hc.named, hc.listed, hc.occupied⟩

/-- After any run the index is right. -/
theorem indexed_run (timeout : Int) (es : List ClusterEvent) : (run timeout es).Indexed :=
  List.foldlRecOn es Cluster.after (indexed_start timeout) fun _ hc e _ => hc.after e

theorem timeout_remove : (c.remove id).timeout = c.timeout := by
  unfold remove
  cases c.nodes.find? id <;> rfl

theorem timeout_after (e : ClusterEvent) : (c.after e).timeout = c.timeout := by
  cases e with
  | heartbeat now node =>
    show (c.update now node).timeout = c.timeout
    unfold update
    cases c.nodes.find? node.id <;> rfl
  | check now =>
    exact List.foldlRecOn (c.expired now) remove (motive := (·.timeout = c.timeout)) rfl
      fun _ h _ _ => timeout_remove.trans h
  | refresh content => rfl

theorem timeout_run (timeout : Int) (es : List ClusterEvent) : (run timeout es).timeout = timeout :=
  List.foldlRecOn es after (motive := (·.timeout = timeout)) rfl
    fun _ h e _ => (timeout_after e).trans h

/-! ### Choosing by tags -/

/-- The servers that can be chosen, each by the node that is kept under its id. -/
theorem Indexed.mem_eligible (hc : c.Indexed) {required : NameSet} {n : ServerNode} :
    n ∈ c.eligible now required ↔ c.node? n.id = some n ∧ now - n.timestamp ≤ c.timeout ∧
      n.id ∉ c.exclude.names ∧ ∀ tag ∈ required, tag ∈ n.tags := by
  have hvalues : n ∈ c.nodes.values ↔ c.node? n.id = some n := by
    unfold Table.values node?
    rw [List.mem_map]
    constructor
    · rintro ⟨⟨id, m⟩, hm, rfl⟩
      have hfind := Table.find?_eq_some_iff.2 hm
      rw [hc.named id m hfind]
      exact hfind
    · exact fun h => ⟨_, Table.find?_eq_some_iff.1 h, rfl⟩
  rw [eligible, List.mem_filter, hvalues]
  simp [isEligible, ServerNode.isExpired, ServerNode.hasTags, and_assoc]

/-- No two of the servers that can be chosen have the same id. -/
theorem Indexed.nodup_eligible (hc : c.Indexed) {required : NameSet} :
    ((c.eligible now required).map (·.id)).Nodup := by
  have hkeys : c.nodes.values.map (·.id) = c.nodes.keys := by
    unfold Table.values Table.keys
    rw [List.map_map]
    exact List.map_congr_left fun e he => hc.named e.1 e.2 (Table.find?_eq_some_iff.2 he)
  have hnodup : (c.nodes.values.map (·.id)).Nodup := hkeys ▸ c.nodes.nodup
  exact (List.filter_sublist.map _).nodup hnodup

/-- **The index of tags.** After any heartbeats, looks for silent servers and looks at the exclude
file, a server is listed under a tag just if the node that is kept for it carries the tag, and no
tag has an empty set; another heartbeat brings its tags in. Therefore the servers that can be chosen
for some tags are those listed under all of them that have been heard of in time and are not
excluded. -/
theorem eligible_iff_listed (timeout : Int) (es : List ClusterEvent) :
    let c := run timeout es
    (∀ tag id, (∃ servers, c.tagIndex.find? tag = some servers ∧ id ∈ servers) ↔
      ∃ n, c.node? id = some n ∧ tag ∈ n.tags) ∧
    (∀ tag servers, c.tagIndex.find? tag = some servers → servers.isEmpty = false) ∧
    (∀ now node, ∃ n, (c.after (.heartbeat now node)).node? node.id = some n ∧
      n.tags = node.tags) ∧
    ∀ (now : Int) (required : NameSet),
      ((c.eligible now required).map (·.id)).Nodup ∧
      ∀ n, n ∈ c.eligible now required ↔ c.node? n.id = some n ∧
        (∀ tag ∈ required, ∃ servers, c.tagIndex.find? tag = some servers ∧ n.id ∈ servers) ∧
        now - n.timestamp ≤ timeout ∧ n.id ∉ c.exclude.names := by
  have hc := indexed_run timeout es
  have htimeout := timeout_run timeout es
  generalize run timeout es = c at *
  have hlisted (tag id : String) : (∃ servers, c.tagIndex.find? tag = some servers ∧
      id ∈ servers) ↔ ∃ n, c.node? id = some n ∧ tag ∈ n.tags :=
    mem_listed.symm.trans (hc.listed tag id)
  refine ⟨hlisted, hc.occupied, c.exists_node_update, fun now required => ⟨hc.nodup_eligible, fun n => ?_⟩⟩
  rw [hc.mem_eligible, htimeout]
  simp only [hlisted]
  constructor
  · rintro ⟨hn, hheard, hexcluded, htags⟩
    exact ⟨hn, fun tag htag => ⟨n, hn, htags tag htag⟩, hheard, hexcluded⟩
  · rintro ⟨hn, htags, hheard, hexcluded⟩
    refine ⟨hn, hheard, hexcluded, fun tag htag => ?_⟩
    obtain ⟨m, hm, hmem⟩ := htags tag htag
    cases hn.symm.trans hm
    exact hmem

end Cluster

end ShuffleService
