import SelectEngine.Tree.Outline

/-!
# The lines of an outline

The pass that writes outlines knows the depth of a node only from the hooks that have run. These run
in pairs, and so it comes back to the depth at which it started: an outline has one line for each
node below the root, a node before those below it, and a line is as far in as its node is deep
(`Tree.outline?_eq`).
-/

set_option autoImplicit false

namespace SelectEngine

namespace Tree

mutual

/-- The lines of a branch at a depth. -/
def outlineLines (t : Tree) (depth : Nat) : Branch → List String
  | .node id kind children => t.outlineLine depth id kind :: t.outlineAll (depth + 1) children

/-- The lines of several branches at a depth. -/
def outlineAll (t : Tree) (depth : Nat) : List Branch → List String
  | [] => []
  | b :: bs => t.outlineLines depth b ++ t.outlineAll depth bs

end

/-- The pass writes the lines of a branch and comes back to the depth at which it started. -/
structure Outlines (t : Tree) (lines : List String) (o : Outline) (w : Walk Outline) : Prop where
  result : w.result = .ok ()
  state : w.state = ⟨lines.foldl (· ++ ·) o.text, o.depth⟩

theorem Outlines.andThen {t : Tree} {lines more : List String} {o : Outline} {w : Walk Outline}
    {next : Outline → Walk Outline} (h : t.Outlines lines o w)
    (hnext : ∀ later : Outline, later.depth = o.depth → t.Outlines more later (next later)) :
    t.Outlines (lines ++ more) o (w.andThen next) := by
  obtain ⟨hresult, hstate⟩ := h
  have hmore := hnext w.state (by rw [hstate])
  have hthen : w.andThen next =
      ⟨w.trace ++ (next w.state).trace, (next w.state).result, (next w.state).state⟩ := by
    simp only [Walk.andThen, hresult]
  rw [hthen]
  refine ⟨hmore.result, hmore.state.trans ?_⟩
  rw [hstate, List.foldl_append]

mutual

theorem outlines_walk (t : Tree) : ∀ (b : Branch) (o : Outline),
    t.Outlines (t.outlineLines o.depth b) o (t.outliner.walk b o)
  | .node id kind children, o => by
    obtain ⟨hresult, hstate⟩ := outlines_walkAll t children
      ⟨o.text ++ t.outlineLine o.depth id kind, o.depth + 1⟩
    -- Leaving the node takes back the step that entering it took.
    refine ⟨hresult, (congrArg (t.outliner.onLeave id kind) hstate).trans ?_⟩
    rw [outlineLines, List.foldl_cons]
    rfl

theorem outlines_walkAll (t : Tree) : ∀ (bs : List Branch) (o : Outline),
    t.Outlines (t.outlineAll o.depth bs) o (t.outliner.walkAll bs o)
  | [], _ => ⟨rfl, rfl⟩
  | b :: bs, o => by
    refine (outlines_walk t b o).andThen fun later hdepth => ?_
    rw [← hdepth]
    exact outlines_walkAll t bs later

end

/-- The outline of a tree that is not too high is the lines of all that is below its root. -/
theorem outline?_eq {t : Tree} {root : NodeId} (hroot : t.root = some root)
    (hheight : t.height root ≤ outlineLimit) :
    t.outline? = some (String.join (t.outlineLines 0 (t.branch root))) := by
  have hwritten := (outlines_walk t (t.branch root) ⟨"", 0⟩).state
  simp only [outline?, hroot, if_pos hheight, hwritten]
  rfl

end Tree

end SelectEngine
