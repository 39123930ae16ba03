/-
The entities that a class comment documents.

A class comment can also document configs of the class and its constructor.  It is cut before each
config and before each constructor; a config that is a part of the one before stays with it.
-/
import ApiDoc.Comment.Detect

namespace ApiDoc
namespace Comment

open Text

structure TagGroup where
  kind : EntityKind
  tags : List Tag
  deriving Repr

/-- The tags that still belong to the group before them, and the groups that follow.  `root` is the
first segment of the config that is being documented. -/
def cutGroups (root : Option String) : List Tag → List Tag × List TagGroup
  | [] => ([], [])
  | t :: ts =>
    match t.kind with
    | .config =>
      let first := firstSegment t.nameText
      if t.nameText.toList.contains '.' && root == some first then
        let r := cutGroups root ts
        (t :: r.1, r.2)
      else
        let r := cutGroups (some first) ts
        ([], { kind := .config, tags := t :: r.1 } :: r.2)
    | .constructorDef =>
      let r := cutGroups none ts
      ([], { kind := .method, tags := t :: r.1 } :: r.2)
    | _ =>
      let r := cutGroups root ts
      (t :: r.1, r.2)

/-- The groups of a class comment.  The first one is the class itself. -/
def expandClass (tags : List Tag) : List TagGroup :=
  let r := cutGroups none tags
  { kind := .classDef, tags := r.1 } :: r.2

/-- Every tag is in exactly one group, and their order is kept. -/
theorem flatMap_tags_cutGroups (root : Option String) (tags : List Tag) :
    (cutGroups root tags).1 ++ (cutGroups root tags).2.flatMap TagGroup.tags = tags := by
  fun_induction cutGroups root tags with
  | case1 => rfl
  | case2 root t ts _ first _ r ih => simp [r, ih]
  | case3 root t ts _ first _ r ih => simp [r, ih]
  | case4 root t ts _ r ih => simp [r, ih]
  | case5 root t ts r _ _ ih => simp [r, ih]

end Comment
end ApiDoc
