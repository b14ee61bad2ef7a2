/-!
# Doubly linked segments

Nodes live at addresses of an arbitrary type and two functions give the links
stored there.  `Segment next prev before nodes after` says that the listed
nodes are linked both ways, that the first one points back to `before` and the
last one forward to `after`.

The three edits of a doubly linked list are stated against new link functions
that are known only pointwise: keeping the links, linking a node in after
another one, and unlinking the node after another one.
-/

namespace VgcMalloc.Linked

universe u

variable {α : Type u}

/-- The nodes are linked both ways between `before` and `after`. -/
def Segment (next prev : α → α) : α → List α → α → Prop
  | _, [], _ => True
  | before, node :: rest, after =>
      prev node = before ∧ next node = rest.headD after ∧ Segment next prev node rest after

/-- Collect at most `fuel` nodes along `next`, up to the first stop. -/
def follow (next : α → α) (stop : α → Bool) : Nat → α → List α
  | 0, _ => []
  | fuel + 1, node =>
      if stop node then [] else node :: follow next stop fuel (next node)

variable {next prev next' prev' : α → α} {before after : α}

@[simp]
theorem segment_nil : Segment next prev before [] after :=
  trivial

theorem segment_cons {node : α} {rest : List α} :
    Segment next prev before (node :: rest) after ↔
      prev node = before ∧ next node = rest.headD after ∧
        Segment next prev node rest after :=
  Iff.rfl

/-- A segment splits at every position: the seam is the node on either
side. -/
theorem segment_append {front back : List α} :
    Segment next prev before (front ++ back) after ↔
      Segment next prev before front (back.headD after) ∧
        Segment next prev (front.getLastD before) back after := by
  induction front generalizing before with
  | nil => simp
  | cons node rest ih =>
      have head : (rest ++ back).headD after = rest.headD (back.headD after) := by
        cases rest <;> rfl
      rw [List.cons_append, segment_cons, segment_cons, ih, head, List.getLastD_cons]
      simp only [and_assoc]

/-- The links of a node in the middle of a segment. -/
theorem Segment.links {front back : List α} {node : α}
    (segment : Segment next prev before (front ++ node :: back) after) :
    prev node = front.getLastD before ∧ next node = back.headD after := by
  have tail := (segment_append.mp segment).2
  exact ⟨tail.1, tail.2.1⟩

/-- The nodes of a segment determine its links. -/
theorem Segment.agree {nodes : List α} {node : α}
    (first : Segment next prev before nodes after) (second : Segment next' prev' before nodes after)
    (member : node ∈ nodes) : next' node = next node ∧ prev' node = prev node := by
  obtain ⟨front, back, rfl⟩ := List.append_of_mem member
  rw [first.links.1, first.links.2, second.links.1, second.links.2]
  exact ⟨rfl, rfl⟩

/-- A segment only reads the links of its own nodes. -/
theorem Segment.congr {nodes : List α}
    (segment : Segment next prev before nodes after)
    (sameNext : ∀ node ∈ nodes, next' node = next node)
    (samePrev : ∀ node ∈ nodes, prev' node = prev node) :
    Segment next' prev' before nodes after := by
  induction nodes generalizing before with
  | nil => trivial
  | cons node rest ih =>
      obtain ⟨prevEq, nextEq, tail⟩ := segment
      refine ⟨?_, ?_, ih tail ?_ ?_⟩
      · rw [samePrev node List.mem_cons_self, prevEq]
      · rw [sameNext node List.mem_cons_self, nextEq]
      · exact fun x member => sameNext x (List.mem_cons_of_mem node member)
      · exact fun x member => samePrev x (List.mem_cons_of_mem node member)

/-- The tail of a segment may get another predecessor: only the back link of
its first node changes. -/
theorem Segment.rehead {nodes : List α} {before' : α}
    (segment : Segment next prev before nodes after)
    (headPrev : ∀ node ∈ nodes.head?, prev' node = before')
    (sameNext : ∀ node ∈ nodes, next' node = next node)
    (samePrev : ∀ node ∈ nodes.tail, prev' node = prev node) :
    Segment next' prev' before' nodes after := by
  cases nodes with
  | nil => trivial
  | cons node rest =>
      obtain ⟨_, nextEq, tail⟩ := segment
      refine ⟨headPrev node rfl, ?_, ?_⟩
      · rw [sameNext node List.mem_cons_self, nextEq]
      · exact tail.congr
          (fun x member => sameNext x (List.mem_cons_of_mem node member)) samePrev

/-- The front of a segment may get another successor: only the forward link
of its last node changes. -/
theorem Segment.retail {front : List α} {node after' : α}
    (segment : Segment next prev before (front ++ [node]) after)
    (lastNext : next' node = after')
    (sameNext : ∀ x ∈ front, next' x = next x)
    (samePrev : ∀ x ∈ front ++ [node], prev' x = prev x) :
    Segment next' prev' before (front ++ [node]) after' := by
  rw [segment_append] at segment ⊢
  obtain ⟨frontSegment, prevEq, _, _⟩ := segment
  refine ⟨frontSegment.congr sameNext ?_, ?_, lastNext, trivial⟩
  · exact fun x member => samePrev x (List.mem_append_left _ member)
  · rw [samePrev node (List.mem_append_right _ (List.mem_singleton_self node)), prevEq]

private theorem append_cons_eq (front back : List α) (node : α) :
    front ++ node :: back = (front ++ [node]) ++ back := by
  simp

/-- Link `fresh` in after `node`: four links change, the rest is kept. -/
theorem Segment.insertAfter {front back : List α} {node fresh : α}
    (segment : Segment next prev before (front ++ node :: back) after)
    (nodeNext : next' node = fresh) (freshPrev : prev' fresh = node)
    (freshNext : next' fresh = next node)
    (backPrev : ∀ x ∈ back.head?, prev' x = fresh)
    (sameNext : ∀ x ∈ front ++ back, next' x = next x)
    (samePrev : ∀ x ∈ front ++ node :: back.tail, prev' x = prev x) :
    Segment next' prev' before (front ++ node :: fresh :: back) after := by
  have nodeLinks := segment.links
  rw [append_cons_eq, segment_append] at segment ⊢
  obtain ⟨frontSegment, backSegment⟩ := segment
  refine ⟨?_, ?_, ?_, ?_⟩
  · refine frontSegment.retail nodeNext ?_ ?_
    · exact fun x member => sameNext x (List.mem_append_left _ member)
    · intro x member
      apply samePrev x
      simp only [List.mem_append, List.mem_cons, List.not_mem_nil, or_false] at member ⊢
      exact member.imp id Or.inl
  · simpa using freshPrev
  · rw [freshNext, nodeLinks.2]
  · refine backSegment.rehead backPrev ?_ ?_
    · exact fun x member => sameNext x (List.mem_append_right _ member)
    · intro x member
      exact samePrev x (List.mem_append_right _ (List.mem_cons_of_mem _ member))

/-- Unlink the node after `node`: two links change, the rest is kept. -/
theorem Segment.removeAfter {front back : List α} {node gone : α}
    (segment : Segment next prev before (front ++ node :: gone :: back) after)
    (nodeNext : next' node = next gone)
    (backPrev : ∀ x ∈ back.head?, prev' x = node)
    (sameNext : ∀ x ∈ front ++ back, next' x = next x)
    (samePrev : ∀ x ∈ front ++ node :: back.tail, prev' x = prev x) :
    Segment next' prev' before (front ++ node :: back) after := by
  rw [append_cons_eq, segment_append] at segment ⊢
  obtain ⟨frontSegment, _, goneNext, backSegment⟩ := segment
  constructor
  · refine frontSegment.retail (nodeNext.trans goneNext) ?_ ?_
    · exact fun x member => sameNext x (List.mem_append_left _ member)
    · intro x member
      apply samePrev x
      simp only [List.mem_append, List.mem_cons, List.not_mem_nil, or_false] at member ⊢
      exact member.imp id Or.inl
  · rw [List.getLastD_concat]
    refine backSegment.rehead backPrev ?_ ?_
    · exact fun x member => sameNext x (List.mem_append_right _ member)
    · intro x member
      exact samePrev x (List.mem_append_right _ (List.mem_cons_of_mem _ member))

/-- Every node of a segment but the first is the next one of another. -/
theorem Segment.exists_next_eq {node x : α} {rest : List α}
    (segment : Segment next prev before (node :: rest) after) (member : x ∈ rest) :
    ∃ y, next y = x := by
  induction rest generalizing node before with
  | nil => exact absurd member List.not_mem_nil
  | cons second rest ih =>
      obtain ⟨_, forward, tail⟩ := segment
      rcases List.mem_cons.mp member with rfl | later
      · exact ⟨node, forward⟩
      · exact ih tail later

/-! ## Following the links -/

/-- Two segments that start at the same node and end at the same outside
address are equal, since the forward link of a node is unique. -/
theorem Segment.eq_of_head_eq {first second : List α} {before' : α}
    (left : Segment next prev before first after)
    (right : Segment next prev before' second after)
    (leftEnds : after ∉ first) (rightEnds : after ∉ second)
    (head : first.headD after = second.headD after) : first = second := by
  induction first generalizing before before' second with
  | nil =>
      cases second with
      | nil => rfl
      | cons node rest =>
          simp only [List.headD_nil, List.headD_cons] at head
          exact absurd (head ▸ List.mem_cons_self) rightEnds
  | cons node rest ih =>
      cases second with
      | nil =>
          simp only [List.headD_nil, List.headD_cons] at head
          exact absurd (head ▸ List.mem_cons_self) leftEnds
      | cons node' rest' =>
          simp only [List.headD_cons] at head
          subst head
          have tails : rest = rest' := ih left.2.2 right.2.2
            (fun member => leftEnds (List.mem_cons_of_mem _ member))
            (fun member => rightEnds (List.mem_cons_of_mem _ member))
            (left.2.1.symm.trans right.2.1)
          rw [tails]

/-- No node occurs twice in a segment that ends outside of itself. -/
theorem Segment.nodup {nodes : List α}
    (segment : Segment next prev before nodes after) (ends : after ∉ nodes) :
    nodes.Nodup := by
  induction nodes generalizing before with
  | nil => exact List.nodup_nil
  | cons node rest ih =>
      have restEnds : after ∉ rest := fun member => ends (List.mem_cons_of_mem _ member)
      refine List.nodup_cons.mpr ⟨?_, ih segment.2.2 restEnds⟩
      intro again
      obtain ⟨front, back, split⟩ := List.append_of_mem again
      have whole := segment
      rw [split, ← List.cons_append, segment_append] at whole
      have tailEnds : after ∉ node :: back := fun member =>
        restEnds (split ▸ List.mem_append_right _ member)
      have equal : node :: rest = node :: back :=
        segment.eq_of_head_eq whole.2 ends tailEnds rfl
      have lengths := congrArg List.length (split.symm.trans (List.cons.inj equal).2)
      simp at lengths
      omega

/-- In a segment that ends outside of itself, a node points forward to another
one exactly when that one points back. -/
theorem Segment.next_eq_iff {nodes : List α} {node other : α}
    (segment : Segment next prev before nodes after) (starts : before ∉ nodes)
    (ends : after ∉ nodes) (member : node ∈ nodes) (otherMem : other ∈ nodes) :
    next node = other ↔ prev other = node := by
  constructor
  · intro forward
    obtain ⟨front, back, rfl⟩ := List.append_of_mem member
    have links := segment.links
    cases back with
    | nil =>
        rw [links.2, List.headD_nil] at forward
        exact absurd otherMem (forward ▸ ends)
    | cons second rest =>
        rw [links.2, List.headD_cons] at forward
        subst forward
        exact (segment_append.mp segment).2.2.2.1
  · intro backward
    obtain ⟨front, back, rfl⟩ := List.append_of_mem otherMem
    have links := segment.links
    rcases List.eq_nil_or_concat front with rfl | ⟨rest, last, rfl⟩
    · rw [links.1, List.getLastD_nil] at backward
      exact absurd member (backward ▸ starts)
    · rw [List.concat_eq_append] at segment links
      rw [links.1, List.getLastD_concat] at backward
      subst backward
      have tail := (segment_append.mp (segment_append.mp segment).1).2
      exact tail.2.1

/-- Nothing is collected from a stop. -/
theorem follow_of_stop {stop : α → Bool} {node : α} (stopped : stop node = true) (fuel : Nat) :
    follow next stop fuel node = [] := by
  cases fuel with
  | zero => rfl
  | succ fuel => rw [follow, if_pos stopped]

/-- Following the forward links from the first node collects exactly the
segment. -/
theorem Segment.follow_eq {nodes : List α} {stop : α → Bool} {fuel : Nat}
    (segment : Segment next prev before nodes after)
    (ends : stop after = true) (inside : ∀ node ∈ nodes, stop node = false)
    (enough : nodes.length ≤ fuel) :
    follow next stop fuel (nodes.headD after) = nodes := by
  induction nodes generalizing before fuel with
  | nil => cases fuel <;> simp [follow, ends]
  | cons node rest ih =>
      cases fuel with
      | zero => simp at enough
      | succ fuel =>
          have tail := ih segment.2.2
            (fun x member => inside x (List.mem_cons_of_mem _ member))
            (Nat.le_of_succ_le_succ enough)
          rw [List.headD_cons, follow, inside node List.mem_cons_self, segment.2.1, tail]
          rfl

end VgcMalloc.Linked
