import Hypern.App.Mount
import Hypern.Routing.FullPath

/-! Where `_mount_router` puts the routes of a router, and where a native router with the prefix
as its base path would have put them. -/

namespace Hypern.Application

open Python Routing

namespace App

/-- `Hypern._router` is made with the base path `/`. -/
def fullPath (r : Route) : String := getFullPath "/" r.path

end App

/-- Exactly one slash stands at the seam, unless nothing follows, and the prefix starts with one. -/
def SeamFits (pathPrefix path : List Char) : Prop :=
  trimEnd pathPrefix = [] ∨
    leadingSlashes (trimEnd pathPrefix) = 1 ∧
      trailingSlashes pathPrefix + leadingSlashes path = if trimStart path = [] then 0 else 1

instance (pathPrefix path : List Char) : Decidable (SeamFits pathPrefix path) := by
  unfold SeamFits
  infer_instance

theorem trimStart_endpoint (path : String) :
    trimStart (App.endpoint path).toList = trimStart path.toList := by
  unfold App.endpoint
  split_ifs with hempty hslash
  · rw [hempty]
    rfl
  · rfl
  · rw [String.toList_append]
    rfl

theorem toList_fullPath (pathPrefix path : String) :
    (getFullPath "/" (App.endpoint (pathPrefix ++ path))).toList =
      '/' :: trimStart (pathPrefix.toList ++ path.toList) := by
  have hroot : trimEnd "/".toList = [] := rfl
  rw [toList_getFullPath, if_pos hroot, trimStart_endpoint, String.toList_append]

theorem slashes_append_inj {m n : Nat} {c d : Char} (hc : c ≠ '/') (hd : d ≠ '/')
    {cs ds : List Char} :
    List.replicate m '/' ++ c :: cs = List.replicate n '/' ++ d :: ds ↔
      m = n ∧ c :: cs = d :: ds := by
  constructor
  · intro heq
    have hslashes := congrArg leadingSlashes heq
    rw [leadingSlashes_replicate_append hc, leadingSlashes_replicate_append hd] at hslashes
    subst hslashes
    exact ⟨rfl, List.append_cancel_left heq⟩
  · rintro ⟨rfl, heq⟩
    rw [heq]

/-- The two ways of joining agree exactly when the seam fits. -/
theorem mounted_eq_iff (pathPrefix path : String) :
    getFullPath "/" (App.endpoint (pathPrefix ++ path)) = getFullPath pathPrefix path ↔
      SeamFits pathPrefix.toList path.toList := by
  rw [← String.toList_inj, toList_fullPath, toList_getFullPath, SeamFits]
  generalize pathPrefix.toList = p, path.toList = q
  have hp := trimEnd_append_trailingSlashes p
  have hq := leadingSlashes_append_trimStart q
  by_cases hempty : trimEnd p = []
  · rw [hempty, List.nil_append] at hp
    refine iff_of_true ?_ (.inl hempty)
    rw [if_pos hempty, ← hp, trimStart_replicate_append]
  · obtain ⟨c, body, hc, hbase⟩ := exists_body hempty (getLast?_trimEnd p)
    have hjoined : p ++ q = List.replicate (leadingSlashes (trimEnd p)) '/' ++ c :: (body ++
        (List.replicate (trailingSlashes p + leadingSlashes q) '/' ++ trimStart q)) := by
      conv_lhs => rw [← hp, ← hq, hbase]
      rw [List.replicate_add]
      simp only [List.append_assoc, List.cons_append]
    have hmounted : '/' :: trimStart (p ++ q) = List.replicate 1 '/' ++ c :: (body ++
        (List.replicate (trailingSlashes p + leadingSlashes q) '/' ++ trimStart q)) := by
      rw [hjoined, trimStart_replicate_append, trimStart_cons hc]
      rfl
    have hnative : (if trimStart q = [] then trimEnd p else trimEnd p ++ '/' :: trimStart q) =
        List.replicate (leadingSlashes (trimEnd p)) '/' ++ c :: (body ++
          (List.replicate (if trimStart q = [] then 0 else 1) '/' ++ trimStart q)) := by
      split_ifs with hroot
      · rw [hroot]
        simpa using hbase
      · conv_lhs => rw [hbase]
        simp
    rw [if_neg hempty, hmounted, hnative, slashes_append_inj hc hc, List.cons.injEq,
      List.append_cancel_left_eq, List.append_cancel_right_eq, or_iff_right hempty, eq_comm]
    simp

/-- Every route of a mounted router is registered under the path that a native router with the
prefix as its base path gives it, exactly when every seam fits. -/
theorem mountRouter_fullPath_iff (pathPrefix : String) (router : Router) :
    (App.mountRouter pathPrefix router).map App.fullPath =
        router.routes.map (fun r => getFullPath pathPrefix r.path) ↔
      ∀ r ∈ router.routes, SeamFits pathPrefix.toList r.path.toList := by
  rw [App.mountRouter, List.map_map, List.map_inj_left]
  exact forall₂_congr fun r _ => mounted_eq_iff pathPrefix r.path

def pingRouter : Router := (Router.new "").addRoute 1 "GET" "/" (asyncDef 0 2 fun _ => .ret ()) []

/-- The root route of a router that is mounted under `/api`. -/
theorem root_keeps_slash : (App.mountRouter "/api" pingRouter).map App.fullPath = ["/api/"] ∧
    (App.mountRouter "/api" pingRouter).map App.fullPath ≠
      pingRouter.routes.map fun r => getFullPath "/api" r.path := by
  decide

end Hypern.Application
