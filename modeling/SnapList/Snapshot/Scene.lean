/-
  Scenes: the list that is captured, and the list on which others act meanwhile.

  Usually it is the same list, and what others do there can spoil the copy. It may also be
  ANOTHER list; then the captured one stays as it is.

  Main statement: what is done to another list leaves the captured one alone
  (`list_act_of_other`).
-/
import SnapList.LiveList.Operation

namespace SnapList

/-- A list that is captured, and the list on which others act if that is another one. -/
structure Scene where
  list : LiveList
  other : Option LiveList := none

namespace Scene

def acted (scene : Scene) : LiveList := scene.other.getD scene.list

/-- The scene after others have made `after` of the list on which they act. -/
def act (scene : Scene) (after : LiveList) : Scene :=
  match scene.other with
  | none => { scene with list := after }
  | some _ => { scene with other := some after }

theorem acted_act (scene : Scene) (after : LiveList) : (scene.act after).acted = after := by
  cases h : scene.other <;> simp [act, acted, h]

theorem act_acted (scene : Scene) : scene.act scene.acted = scene := by
  obtain ⟨list, other⟩ := scene
  cases other <;> rfl

theorem act_act (scene : Scene) (first second : LiveList) :
    (scene.act first).act second = scene.act second := by
  obtain ⟨list, other⟩ := scene
  cases other <;> rfl

theorem list_act_of_same {scene : Scene} (after : LiveList) (h : scene.other = none) :
    (scene.act after).list = after := by
  simp [act, h]

theorem list_act_of_other {scene : Scene} {other : LiveList} (after : LiveList)
    (h : scene.other = some other) : (scene.act after).list = scene.list := by
  simp [act, h]

end Scene

end SnapList
