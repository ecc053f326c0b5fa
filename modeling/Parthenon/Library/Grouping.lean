import Mathlib.Data.List.Induction
import Mathlib.Data.List.Nodup
import Mathlib.Logic.Relation

namespace Parthenon.Library

open Relation

/-! # Groups of a queue

The nodes of a graph are queued, and each node of the queue that is in no group yet
starts one with its parents and its descendants.  The groups list every node once
and after its parents exactly when they are those of the sources that come first, and
each of them lists its nodes after their parents.
-/

variable {α : Type u} {edge : α → α → Prop}

/-- Every node comes after its parents. -/
def ParentsFirst (edge : α → α → Prop) (nodes : List α) : Prop :=
  ∀ front node rest, nodes = front ++ node :: rest → ∀ parent, edge parent node → parent ∈ front

theorem ParentsFirst.mem {nodes : List α} (ordered : ParentsFirst edge nodes) {parent node : α}
    (member : node ∈ nodes) (isParent : edge parent node) : parent ∈ nodes := by
  obtain ⟨front, rest, split⟩ := List.append_of_mem member
  rw [split]
  exact List.mem_append_left _ (ordered front node rest split parent isParent)

/-- With a node come its ancestors. -/
theorem ParentsFirst.mem_of_transGen {nodes : List α} (ordered : ParentsFirst edge nodes)
    {ancestor node : α} (path : TransGen edge ancestor node) (member : node ∈ nodes) :
    ancestor ∈ nodes := by
  induction path with
  | single isParent => exact ordered.mem member isParent
  | tail _ isParent ih => exact ih (ordered.mem member isParent)

theorem ParentsFirst.front {first second : List α} (ordered : ParentsFirst edge (first ++ second)) :
    ParentsFirst edge first := by
  intro front node rest split parent isParent
  refine ordered front node (rest ++ second) ?_ parent isParent
  rw [split, List.append_assoc, List.cons_append]

theorem ParentsFirst.append {first second : List α} (firstOrdered : ParentsFirst edge first)
    (secondOrdered : ParentsFirst edge second) : ParentsFirst edge (first ++ second) := by
  intro front node rest split parent isParent
  cases List.append_eq_append_iff.mp split with
  | inl later =>
      obtain ⟨between, isFront, isSecond⟩ := later
      rw [isFront]
      exact List.mem_append_right _ (secondOrdered between node rest isSecond parent isParent)
  | inr earlier =>
      obtain ⟨between, isFirst, isRest⟩ := earlier
      cases between with
      | nil =>
          rw [List.append_nil] at isFirst
          rw [List.nil_append] at isRest
          have impossible := secondOrdered [] node rest isRest.symm parent isParent
          cases impossible
      | cons head tail =>
          rw [List.cons_append, List.cons.injEq] at isRest
          rw [← isRest.1] at isFirst
          exact firstOrdered front node tail isFirst parent isParent

theorem parentsFirst_concat {nodes : List α} {last : α} :
    ParentsFirst edge (nodes ++ [last]) ↔
      ParentsFirst edge nodes ∧ ∀ parent, edge parent last → parent ∈ nodes := by
  constructor
  · intro ordered
    exact ⟨ordered.front, ordered nodes last [] rfl⟩
  · intro both
    obtain ⟨ordered, lastOrdered⟩ := both
    intro front node rest split parent isParent
    cases List.eq_nil_or_concat rest with
    | inl empty =>
        rw [empty] at split
        obtain ⟨sameFront, sameLast⟩ := List.append_inj' split rfl
        cases sameLast
        rw [← sameFront]
        exact lastOrdered parent isParent
    | inr more =>
        obtain ⟨middle, final_, isRest⟩ := more
        rw [isRest, List.concat_eq_append, ← List.cons_append, ← List.append_assoc] at split
        exact ordered front node middle (List.append_inj' split rfl).1 parent isParent

theorem parentsFirst_flatten {groups : List (List α)}
    (ordered : ∀ group ∈ groups, ParentsFirst edge group) : ParentsFirst edge groups.flatten := by
  induction groups with
  | nil =>
      intro front node rest split
      cases front with
      | nil => cases split
      | cons => cases split
  | cons group rest ih =>
      rw [List.flatten_cons]
      exact (ordered group List.mem_cons_self).append
        (ih fun other member => ordered other (List.mem_cons_of_mem group member))

/-! ## First occurrences -/

section Distinct

variable [DecidableEq α]

def appendNew (found : List α) (node : α) : List α := if node ∈ found then found else found ++ [node]

theorem mem_appendNew {found : List α} {node other : α} :
    other ∈ appendNew found node ↔ other ∈ found ∨ other = node := by
  rw [appendNew]
  split
  · rename_i known
    constructor
    · exact .inl
    · intro either
      cases either with
      | inl member => exact member
      | inr same => exact same ▸ known
  · rw [List.mem_append, List.mem_singleton]

theorem mem_foldl_appendNew {nodes found : List α} {other : α} :
    other ∈ nodes.foldl appendNew found ↔ other ∈ found ∨ other ∈ nodes := by
  induction nodes generalizing found with
  | nil => simp
  | cons node rest ih => rw [List.foldl_cons, ih, mem_appendNew, List.mem_cons, or_assoc]

theorem foldl_appendNew_prefix (nodes found : List α) :
    ∃ more, nodes.foldl appendNew found = found ++ more := by
  induction nodes generalizing found with
  | nil => exact ⟨[], (List.append_nil found).symm⟩
  | cons node rest ih =>
      rw [List.foldl_cons, appendNew]
      split
      · exact ih found
      · obtain ⟨more, isMore⟩ := ih (found ++ [node])
        exact ⟨node :: more, by rw [isMore, List.append_assoc]; rfl⟩

theorem nodup_foldl_appendNew {nodes found : List α} (distinct : found.Nodup) :
    (nodes.foldl appendNew found).Nodup := by
  induction nodes generalizing found with
  | nil => exact distinct
  | cons node rest ih =>
      apply ih
      rw [appendNew]
      split
      · exact distinct
      · rename_i new
        exact List.nodup_append.mpr ⟨distinct, List.nodup_singleton node, by
          intro other member last isLast
          rw [List.mem_singleton.mp isLast]
          intro same
          exact new (same ▸ member)⟩

/-- The order of first occurrences is decided by the list they are taken from. -/
theorem parentsFirst_foldl_appendNew {nodes found : List α} :
    ParentsFirst edge (nodes.foldl appendNew found) ↔ ParentsFirst edge (found ++ nodes) := by
  induction nodes using List.reverseRecOn with
  | nil => simp
  | append_singleton nodes last ih =>
      have known {other : α} : other ∈ nodes.foldl appendNew found ↔ other ∈ found ++ nodes := by
        rw [mem_foldl_appendNew, List.mem_append]
      rw [List.foldl_append, List.foldl_cons, List.foldl_nil, ← List.append_assoc,
        parentsFirst_concat, appendNew]
      split
      · rename_i member
        rw [ih]
        constructor
        · intro ordered
          exact ⟨ordered, fun parent isParent => ordered.mem (known.mp member) isParent⟩
        · exact And.left
      · rw [parentsFirst_concat, ih]
        simp only [known]

end Distinct

/-! ## Grouping -/

section Groups

variable {group : α → List α} {leads : α → Bool} {queue : List α} {limit : Nat}

/-- Each node of the queue that is in no group starts one, up to a number of groups. -/
def groupsFrom [DecidableEq α] (group : α → List α) (limit : Nat) :
    List α → List (List α) → List (List α)
  | [], groups => groups
  | node :: rest, groups =>
      if groups.length ≥ limit then groups
      else if node ∈ groups.flatten then groupsFrom group limit rest groups
      else groupsFrom group limit rest (groups ++ [group node])

/-- A group is started by a node, lists no node twice, and has the parents and the
descendants of the node that starts it.  The nodes that lead are those without parents. -/
structure Leading (edge : α → α → Prop) (group : α → List α) (leads : α → Bool) : Prop where
  first : ∀ node, ∃ rest, group node = node :: rest
  distinct : ∀ node, (group node).Nodup
  mem : ∀ node other, other ∈ group node ↔ other = node ∨ edge other node ∨ TransGen edge node other
  source : ∀ node, leads node = true ↔ ∀ parent, ¬ edge parent node

/-- The first nodes of the queue that have no parents. -/
def leaders (leads : α → Bool) (queue : List α) (limit : Nat) : List α :=
  (queue.filter leads).take limit

/-- Every other node comes after a leader it descends from, or after enough leaders. -/
def Led (edge : α → α → Prop) (leads : α → Bool) (queue : List α) (limit : Nat) : Prop :=
  ∀ front node rest, queue = front ++ node :: rest → leads node = false →
    (front.filter leads).length < limit →
    ∃ leader ∈ front, leads leader = true ∧ TransGen edge leader node

theorem leads_of_mem_leaders {leader : α} (member : leader ∈ leaders leads queue limit) :
    leads leader = true := (List.mem_filter.mp (List.mem_of_mem_take member)).2

theorem leaders_nodup (distinct : queue.Nodup) : (leaders leads queue limit).Nodup :=
  (distinct.filter leads).sublist (List.take_sublist limit _)

namespace Leading

variable (leading : Leading edge group leads)
include leading

theorem mem_iff {leader other : α} (isLeader : leads leader = true) :
    other ∈ group leader ↔ other = leader ∨ TransGen edge leader other := by
  have noParent := (leading.source leader).mp isLeader
  rw [leading.mem]
  constructor
  · intro member
    rcases member with same | isParent | path
    · exact .inl same
    · exact absurd isParent (noParent other)
    · exact .inr path
  · intro member
    cases member with
    | inl same => exact .inl same
    | inr path => exact .inr (.inr path)

theorem not_leads_of_path {ancestor node : α} (path : TransGen edge ancestor node) :
    leads node = false := by
  obtain ⟨parent, _, isParent⟩ := TransGen.tail'_iff.mp path
  refine Bool.eq_false_iff.mpr ?_
  intro isLeader
  exact (leading.source node).mp isLeader parent isParent

theorem eq_of_mem {leader other : α} (isLeader : leads leader = true)
    (otherLeads : leads other = true) (member : other ∈ group leader) : other = leader := by
  cases (leading.mem_iff isLeader).mp member with
  | inl same => exact same
  | inr path =>
      rw [leading.not_leads_of_path path] at otherLeads
      cases otherLeads

theorem mem_flatten {front : List α} {node : α} :
    node ∈ ((front.filter leads).map group).flatten ↔
      ∃ leader ∈ front, leads leader = true ∧ (node = leader ∨ TransGen edge leader node) := by
  rw [List.mem_flatten]
  constructor
  · intro member
    obtain ⟨nodes, isGroup, member⟩ := member
    obtain ⟨leader, listed, same⟩ := List.mem_map.mp isGroup
    obtain ⟨inFront, isLeader⟩ := List.mem_filter.mp listed
    exact ⟨leader, inFront, isLeader, (leading.mem_iff isLeader).mp (same ▸ member)⟩
  · intro member
    obtain ⟨leader, inFront, isLeader, reaches⟩ := member
    exact ⟨group leader, List.mem_map_of_mem (List.mem_filter.mpr ⟨inFront, isLeader⟩),
      (leading.mem_iff isLeader).mpr reaches⟩

/-- A source of the queue is in none of the groups that came before it. -/
theorem not_mem_flatten {front rest : List α} {node : α} (distinct : (front ++ node :: rest).Nodup)
    (isLeader : leads node = true) : node ∉ ((front.filter leads).map group).flatten := by
  intro member
  obtain ⟨leader, inFront, leaderLeads, reaches⟩ := leading.mem_flatten.mp member
  have same := leading.eq_of_mem leaderLeads isLeader ((leading.mem_iff leaderLeads).mpr reaches)
  exact (List.nodup_append.mp distinct).2.2 leader inFront node List.mem_cons_self same.symm

/-- A node that starts a group has no parents: they would be in its group, after it, and
before it too. -/
theorem leads_of_ordered {groups more : List (List α)} {node : α}
    (unique : (groups ++ [group node] ++ more).flatten.Nodup)
    (ordered : ParentsFirst edge (groups ++ [group node] ++ more).flatten) : leads node = true := by
  obtain ⟨rest, isGroup⟩ := leading.first node
  have split : (groups ++ [group node] ++ more).flatten =
      groups.flatten ++ node :: (rest ++ more.flatten) := by
    rw [List.flatten_append, List.flatten_append, List.flatten_singleton, isGroup, List.append_assoc]
    rfl
  rw [leading.source]
  intro parent isParent
  have before := ordered groups.flatten node (rest ++ more.flatten) split parent isParent
  have inGroup : parent ∈ group node := (leading.mem node parent).mpr (.inr (.inl isParent))
  rw [isGroup] at inGroup
  rw [split, List.nodup_append] at unique
  refine unique.2.2 parent before parent ?_ rfl
  rw [← List.cons_append]
  exact List.mem_append_left _ inGroup

/-- What a leader's group has, no other source leads to. -/
theorem eq_of_ordered {leader other node : α} (isLeader : leads leader = true) (otherLeads : leads other = true)
    (ordered : ParentsFirst edge (group leader)) (member : node ∈ group leader)
    (reaches : node ∈ group other) : other = leader := by
  cases (leading.mem_iff otherLeads).mp reaches with
  | inl same => exact leading.eq_of_mem isLeader otherLeads (same ▸ member)
  | inr path => exact leading.eq_of_mem isLeader otherLeads (ordered.mem_of_transGen path member)

/-- Each group of a list that has every node after its parents, and once, has its own
nodes after their parents. -/
theorem ordered_of_flatten {first later : List α} {leader : α}
    (leads_first : ∀ other ∈ first, leads other = true)
    (unique : ((first ++ leader :: later).map group).flatten.Nodup)
    (ordered : ParentsFirst edge ((first ++ leader :: later).map group).flatten) :
    ParentsFirst edge (group leader) := by
  rw [List.map_append, List.map_cons, List.flatten_append, List.flatten_cons] at unique ordered
  intro front node rest split parent isParent
  have position : (first.map group).flatten ++ (group leader ++ (later.map group).flatten) =
      ((first.map group).flatten ++ front) ++ node :: (rest ++ (later.map group).flatten) := by
    rw [split, List.append_assoc, List.append_assoc, List.cons_append]
  cases List.mem_append.mp (ordered _ node _ position parent isParent) with
  | inr inFront => exact inFront
  | inl earlier =>
      -- Otherwise the node is in the earlier group of its parent as well.
      obtain ⟨nodes, isGroup, member⟩ := List.mem_flatten.mp earlier
      obtain ⟨other, inFirst, same⟩ := List.mem_map.mp isGroup
      have otherLeads := leads_first other inFirst
      have path : TransGen edge other node := by
        cases (leading.mem_iff otherLeads).mp (same ▸ member) with
        | inl isOther => exact .single (isOther ▸ isParent)
        | inr path => exact path.tail isParent
      have again : node ∈ (first.map group).flatten :=
        List.mem_flatten.mpr ⟨group other, List.mem_map_of_mem inFirst,
          (leading.mem_iff otherLeads).mpr (.inr path)⟩
      have own : node ∈ group leader ++ (later.map group).flatten := by
        rw [split]
        simp
      exact absurd rfl ((List.nodup_append.mp unique).2.2 node again node own)

end Leading

theorem filter_concat_of_leads (front : List α) {node : α} (isLeader : leads node = true) :
    (front ++ [node]).filter leads = front.filter leads ++ [node] := by
  rw [List.filter_append, List.filter_cons_of_pos isLeader, List.filter_nil]

theorem filter_concat_of_not_leads (front : List α) {node : α} (other : leads node = false) :
    (front ++ [node]).filter leads = front.filter leads := by
  rw [List.filter_append, List.filter_cons_of_neg (by rw [other]; exact Bool.false_ne_true),
    List.filter_nil, List.append_nil]

variable [DecidableEq α]

theorem groupsFrom_prefix (group : α → List α) (limit : Nat) (rest : List α)
    (groups : List (List α)) : ∃ more, groupsFrom group limit rest groups = groups ++ more := by
  induction rest generalizing groups with
  | nil => exact ⟨[], (List.append_nil groups).symm⟩
  | cons node rest ih =>
      rw [groupsFrom]
      split
      · exact ⟨[], (List.append_nil groups).symm⟩
      · split
        · exact ih groups
        · obtain ⟨more, isMore⟩ := ih (groups ++ [group node])
          exact ⟨group node :: more, by rw [isMore, List.append_assoc]; rfl⟩

theorem groupsFrom_full {rest : List α} {groups : List (List α)} (full : limit ≤ groups.length) :
    groupsFrom group limit rest groups = groups := by
  cases rest with
  | nil => rfl
  | cons node rest => rw [groupsFrom, if_pos full]

/-- A queue that is led is grouped by its leaders. -/
theorem groupsFrom_of_led (leading : Leading edge group leads) (distinct : queue.Nodup)
    (led : Led edge leads queue limit) (front : List α) {rest : List α} (split : queue = front ++ rest)
    (fewer : (front.filter leads).length ≤ limit) :
    groupsFrom group limit rest ((front.filter leads).map group) =
      (leaders leads queue limit).map group := by
  induction rest generalizing front with
  | nil =>
      rw [List.append_nil] at split
      rw [groupsFrom, leaders, split, List.take_of_length_le fewer]
  | cons node rest ih =>
      by_cases full : limit ≤ (front.filter leads).length
      · rw [groupsFrom_full (by rwa [List.length_map]), leaders, split, List.filter_append,
          List.take_append_of_le_length full, List.take_of_length_le fewer]
      · have next : queue = (front ++ [node]) ++ rest := by rw [split, List.append_assoc]; rfl
        rw [groupsFrom, List.length_map, if_neg full]
        cases isLeader : leads node with
        | true =>
            have longer := filter_concat_of_leads front isLeader
            have turn := ih (front ++ [node]) next (by rw [longer, List.length_append, List.length_singleton]; omega)
            rw [longer, List.map_append] at turn
            rw [if_neg (leading.not_mem_flatten (split ▸ distinct) isLeader)]
            exact turn
        | false =>
            obtain ⟨leader, inFront, leaderLeads, path⟩ :=
              led front node rest split isLeader (Nat.lt_of_not_le full)
            have same := filter_concat_of_not_leads front isLeader
            have turn := ih (front ++ [node]) next (by rw [same]; exact fewer)
            rw [same] at turn
            rw [if_pos (leading.mem_flatten.mpr ⟨leader, inFront, leaderLeads, .inr path⟩)]
            exact turn

/-- Groups that list every node once and after its parents are started by sources. -/
theorem led_of_groupsFrom (leading : Leading edge group leads) (front : List α) {rest : List α}
    (distinct : (front ++ rest).Nodup)
    (unique : (groupsFrom group limit rest ((front.filter leads).map group)).flatten.Nodup)
    (ordered : ParentsFirst edge
      (groupsFrom group limit rest ((front.filter leads).map group)).flatten)
    (between : List α) (node : α) (later : List α) (split : rest = between ++ node :: later)
    (other : leads node = false) (fewer : ((front ++ between).filter leads).length < limit) :
    ∃ leader ∈ front ++ between, leads leader = true ∧ TransGen edge leader node := by
  induction rest generalizing front between with
  | nil =>
      cases between with
      | nil => cases split
      | cons => cases split
  | cons head rest ih =>
      have notFull : ¬ ((front.filter leads).map group).length ≥ limit := by
        rw [List.filter_append, List.length_append] at fewer
        rw [List.length_map]
        omega
      have next : (front ++ [head]) ++ rest = front ++ head :: rest := by rw [List.append_assoc]; rfl
      rw [groupsFrom, if_neg notFull] at unique ordered
      by_cases known : head ∈ ((front.filter leads).map group).flatten
      · -- The head has been grouped with a leader it descends from.
        rw [if_pos known] at unique ordered
        obtain ⟨leader, inFront, leaderLeads, reaches⟩ := leading.mem_flatten.mp known
        have path : TransGen edge leader head := by
          cases reaches with
          | inl same =>
              have apart := (List.nodup_append.mp distinct).2.2 leader inFront head List.mem_cons_self
              exact absurd same.symm apart
          | inr path => exact path
        have same := filter_concat_of_not_leads front (leading.not_leads_of_path path)
        cases between with
        | nil =>
            cases split
            exact ⟨leader, List.mem_append_left _ inFront, leaderLeads, path⟩
        | cons second between =>
            cases split
            have turn := ih (front ++ [head]) (next ▸ distinct) (by rw [same]; exact unique)
              (by rw [same]; exact ordered) between rfl (by rw [List.append_assoc]; exact fewer)
            rw [List.append_assoc] at turn
            exact turn
      · rw [if_neg known] at unique ordered
        have isLeader : leads head = true := by
          obtain ⟨more, isMore⟩ := groupsFrom_prefix group limit rest
            ((front.filter leads).map group ++ [group head])
          rw [isMore] at unique ordered
          exact leading.leads_of_ordered unique ordered
        have longer := filter_concat_of_leads front isLeader
        cases between with
        | nil =>
            cases split
            rw [isLeader] at other
            cases other
        | cons second between =>
            cases split
            have turn := ih (front ++ [head]) (next ▸ distinct)
              (by rw [longer, List.map_append]; exact unique)
              (by rw [longer, List.map_append]; exact ordered) between rfl
              (by rw [List.append_assoc]; exact fewer)
            rw [List.append_assoc] at turn
            exact turn

/-- Every node is listed once and after its parents exactly when the queue is led, and
the groups of the leaders have their nodes after the parents of these. -/
theorem groups_ordered_iff (leading : Leading edge group leads) (distinct : queue.Nodup) :
    ((groupsFrom group limit queue []).flatten.Nodup ∧
        ParentsFirst edge (groupsFrom group limit queue []).flatten) ↔
      Led edge leads queue limit ∧
        ∀ leader ∈ leaders leads queue limit, ParentsFirst edge (group leader) := by
  constructor
  · intro both
    obtain ⟨unique, ordered⟩ := both
    have led : Led edge leads queue limit := by
      intro front node rest split other fewer
      exact led_of_groupsFrom leading [] distinct unique ordered front node rest split other fewer
    have grouped : groupsFrom group limit queue [] = (leaders leads queue limit).map group :=
      groupsFrom_of_led leading distinct led [] rfl (Nat.zero_le limit)
    rw [grouped] at unique ordered
    refine ⟨led, ?_⟩
    intro leader member
    obtain ⟨first, later, isLeaders⟩ := List.append_of_mem member
    have leads_first : ∀ other ∈ first, leads other = true := by
      intro other inFirst
      have inLeaders : other ∈ leaders leads queue limit := by
        rw [isLeaders]
        exact List.mem_append_left _ inFirst
      exact leads_of_mem_leaders inLeaders
    rw [isLeaders] at unique ordered
    exact leading.ordered_of_flatten leads_first unique ordered
  · intro both
    obtain ⟨led, ordered⟩ := both
    have grouped : groupsFrom group limit queue [] = (leaders leads queue limit).map group :=
      groupsFrom_of_led leading distinct led [] rfl (Nat.zero_le limit)
    rw [grouped]
    constructor
    · rw [List.nodup_flatten, List.pairwise_map]
      constructor
      · intro nodes isGroup
        obtain ⟨leader, _, same⟩ := List.mem_map.mp isGroup
        exact same ▸ leading.distinct leader
      · refine (leaders_nodup distinct).imp_of_mem ?_
        intro left right leftIn rightIn different node inLeft inRight
        exact different (leading.eq_of_ordered (leads_of_mem_leaders leftIn)
          (leads_of_mem_leaders rightIn) (ordered left leftIn) inLeft inRight).symm
    · apply parentsFirst_flatten
      intro nodes isGroup
      obtain ⟨leader, member, same⟩ := List.mem_map.mp isGroup
      exact same ▸ ordered leader member

end Groups

end Parthenon.Library
