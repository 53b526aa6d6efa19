import EvuProxy.Nft.Syntax

/-!
# The text of a file, piece by piece

A file is its commands one after another, and a table its sets and chains: texts that are joined with nothing between them.
-/

namespace Go

theorem join_cons (s : String) (ss : List String) : join (s :: ss) "" = s ++ join ss "" := by
  cases ss with
  | nil => simp [join]
  | cons t ts => simp [join]

theorem join_append (ss ts : List String) : join (ss ++ ts) "" = join ss "" ++ join ts "" := by
  induction ss with
  | nil => simp [join]
  | cons s ss ih => rw [List.cons_append, join_cons, join_cons, ih, String.append_assoc]

end Go

namespace Nft

open Go

@[simp]
theorem scriptText_nil : scriptText [] = "" := rfl

@[simp]
theorem scriptText_cons (c : Command) (s : Script) : scriptText (c :: s) = c.text ++ scriptText s := by
  unfold scriptText
  rw [List.map_cons, join_cons]

theorem scriptText_append (s t : Script) : scriptText (s ++ t) = scriptText s ++ scriptText t := by
  unfold scriptText
  rw [List.map_append, join_append]

/-- What the declarations of sets come to. -/
def setsText (sets : List SetDecl) : String := join (sets.map SetDecl.text) ""

theorem setsText_append (ss ts : List SetDecl) : setsText (ss ++ ts) = setsText ss ++ setsText ts := by
  unfold setsText
  rw [List.map_append, join_append]

theorem setsText_cons (s : SetDecl) (ss : List SetDecl) : setsText (s :: ss) = s.text ++ setsText ss := by
  unfold setsText
  rw [List.map_cons, join_cons]

theorem append_left_inj {s t u : String} (h : s ++ t = s ++ u) : t = u := by
  have hlist : s.toList ++ t.toList = s.toList ++ u.toList := by rw [← String.toList_append, ← String.toList_append, h]
  exact String.toList_inj.mp (List.append_cancel_left hlist)

end Nft
