import LlmProxy.ProofKit.Document
import LlmProxy.Proxy.Request

/-! `DeepMerge` is the merge of documents, in whatever order the keys of a map come. -/

namespace LlmProxy.Proxy

open ProofKit

/-! ### Assignments -/

namespace JsonMap

theorem lookup_replace (m : JsonMap) (key : String) (v : Json) (k : String) :
    (m.map fun entry => if entry.1 = key then (key, v) else entry).lookup k =
      if k = key then (m.lookup key).map fun _ => v else m.lookup k := by
  induction m with
  | nil => simp
  | cons entry rest ih =>
    obtain ⟨k', w⟩ := entry
    by_cases hkey : k' = key <;> by_cases hk : k = key <;> grind

theorem lookup_assign (m : JsonMap) (key : String) (v : Json) (k : String) :
    (m.assign key v).lookup k = if k = key then some v else m.lookup k := by
  have hsome : (m.lookup key).isSome = m.any (·.1 = key) := by
    rw [Bool.eq_iff_iff, List.lookup_isSome_iff, List.any_eq_true]
    simp only [beq_iff_eq, decide_eq_true_eq]
    exact exists_congr fun entry => and_congr_right fun _ => eq_comm
  unfold assign
  cases hany : m.any (·.1 = key) with
  | true =>
    obtain ⟨w, hw⟩ := Option.isSome_iff_exists.mp (hsome.trans hany)
    simp [lookup_replace, hw]
  | false =>
    have hnone : m.lookup key = none := by simpa [hany] using hsome
    by_cases hk : k = key
    · subst hk
      simp [List.lookup_append, hnone]
    · have hne : (k == key) = false := by simpa using hk
      simp [List.lookup_append, hk, List.lookup_cons, hne]

theorem assign_distinct {m : JsonMap} (hm : (Json.obj m).Distinct) {key : String} {v : Json}
    (hv : v.Distinct) : (Json.obj (m.assign key v)).Distinct := by
  obtain _ | _ | _ | _ | _ | ⟨hnodup, hvalues⟩ := hm
  unfold assign
  split
  · refine .obj ?_ fun entry hentry => ?_
    · have hkeys : (m.map fun entry => if entry.1 = key then (key, v) else entry).map (·.1) =
          m.map (·.1) := by
        rw [List.map_map]
        refine List.map_congr_left fun entry _ => ?_
        by_cases hkey : entry.1 = key <;> simp [hkey]
      rwa [hkeys]
    · obtain ⟨old, hold, rfl⟩ := List.mem_map.mp hentry
      split
      · exact hv
      · exact hvalues old hold
  · next hany =>
    refine .obj ?_ fun entry hentry => ?_
    · rw [List.map_append]
      refine hnodup.append (List.nodup_singleton _) (List.disjoint_singleton.mpr ?_)
      simpa using hany
    · rcases List.mem_append.mp hentry with hold | hnew
      · exact hvalues entry hold
      · rw [List.mem_singleton.mp hnew]
        exact hv

end JsonMap

/-! ### Merges -/

variable {ν : Type} {number : String → ν}

/-- What `DeepMerge` leaves under a key is the merge of what was there and the value of the
source. -/
def MergesValue (number : String → ν) (v : Json) : Prop :=
  ∀ held : Option Json, v.Distinct → some ((mergeValue held v).document number) =
    Document.mergeMember (held.map (·.document number)) (some (v.document number))

theorem mergeValue_of_not_obj {v : Json} (hv : ∀ src, v ≠ .obj src) (held : Option Json) :
    mergeValue held v = v := by
  cases v with
  | obj src => exact absurd rfl (hv src)
  | _ => rw [mergeValue]

theorem lookup_deepMerge {src : JsonMap} (hvalues : ∀ m ∈ src, MergesValue number m.2)
    (hdistinct : (Json.obj src).Distinct) (dst : JsonMap) (k : String) :
    ((deepMerge dst src).lookup k).map (·.document number) =
      Document.mergeMember ((dst.lookup k).map (·.document number))
        ((src.lookup k).map (·.document number)) := by
  obtain _ | _ | _ | _ | _ | ⟨hnodup, hmembers⟩ := hdistinct
  induction src generalizing dst with
  | nil => simp [deepMerge]
  | cons entry rest ih =>
    obtain ⟨key, v⟩ := entry
    obtain ⟨hfresh, hnodup⟩ := List.nodup_cons.mp hnodup
    obtain ⟨hv, hrest⟩ := List.forall_mem_cons.mp hvalues
    obtain ⟨hvd, hmembers⟩ := List.forall_mem_cons.mp hmembers
    rw [deepMerge, mergeEntry, ih hrest _ hnodup hmembers, JsonMap.lookup_assign]
    by_cases hk : k = key
    · subst hk
      have hnone : rest.lookup k = none := by
        refine List.lookup_eq_none_iff.mpr fun m hm => ?_
        have hne : k ≠ m.1 := fun heq => hfresh (List.mem_map.mpr ⟨m, hm, heq.symm⟩)
        simpa using hne
      simp [hnone, hv (dst.lookup k) hvd]
    · have hne : (k == key) = false := by simpa using hk
      simp [hk, List.lookup_cons, hne]

theorem mergesValue (v : Json) : MergesValue number v := by
  induction v using Json.induct with
  | null | bool | num | str | arr =>
    intro held _
    rw [mergeValue_of_not_obj (by simp)]
    cases held with
    | none => rfl
    | some held => exact congrArg some (Document.merge_of_not_objects (.inr rfl)).symm
  | obj src ih =>
    intro held hdistinct
    cases held with
    | none => simp [mergeValue]
    | some held =>
      cases held with
      | obj dst =>
        simp only [mergeValue, Json.document_obj, Option.map_some, Document.mergeMember_some,
          Document.merge_obj, Option.some.injEq, Document.obj.injEq]
        funext k
        exact lookup_deepMerge ih hdistinct dst k
      | _ =>
        simp only [mergeValue]
        exact congrArg some (Document.merge_of_not_objects (.inl rfl)).symm

theorem document_deepMerge {src : JsonMap} (hsrc : (Json.obj src).Distinct) (dst : JsonMap) :
    (Json.obj (deepMerge dst src)).document number =
      ((Json.obj dst).document number).merge ((Json.obj src).document number) := by
  rw [Json.document_obj, Json.document_obj, Json.document_obj, Document.merge_obj]
  exact congrArg Document.obj (funext fun k =>
    lookup_deepMerge (fun m _ => mergesValue m.2) hsrc dst k)

/-! ### The result is a map again -/

theorem distinct_lookup {m : JsonMap} (hm : (Json.obj m).Distinct) {key : String} {v : Json}
    (h : m.lookup key = some v) : v.Distinct := by
  obtain _ | _ | _ | _ | _ | ⟨-, hvalues⟩ := hm
  obtain ⟨before, after, rfl, -⟩ := List.lookup_eq_some_iff.mp h
  exact hvalues (key, v) (by simp)

theorem distinct_of_members {src : JsonMap}
    (hvalues : ∀ m ∈ src, ∀ held : Option Json, (∀ v ∈ held, v.Distinct) →
      (mergeValue held m.2).Distinct)
    {dst : JsonMap} (hdst : (Json.obj dst).Distinct) : (Json.obj (deepMerge dst src)).Distinct := by
  induction src generalizing dst with
  | nil => simpa [deepMerge] using hdst
  | cons entry rest ih =>
    obtain ⟨key, v⟩ := entry
    obtain ⟨hv, hrest⟩ := List.forall_mem_cons.mp hvalues
    rw [deepMerge, mergeEntry]
    exact ih hrest (JsonMap.assign_distinct hdst (hv _ fun w hw => distinct_lookup hdst hw))

theorem mergeValue_distinct (v : Json) (hv : v.Distinct) (held : Option Json)
    (hheld : ∀ w ∈ held, w.Distinct) : (mergeValue held v).Distinct := by
  induction v using Json.induct generalizing held with
  | null | bool | num | str | arr => rwa [mergeValue_of_not_obj (by simp)]
  | obj src ih =>
    obtain _ | _ | _ | _ | _ | ⟨hnodup, hmembers⟩ := hv
    cases held with
    | none => simpa [mergeValue] using Json.Distinct.obj hnodup hmembers
    | some held =>
      cases held with
      | obj dst =>
        rw [mergeValue]
        exact distinct_of_members (fun m hm => ih m hm (hmembers m hm)) (hheld _ rfl)
      | _ => simpa [mergeValue] using Json.Distinct.obj hnodup hmembers

theorem deepMerge_distinct {dst src : JsonMap} (hdst : (Json.obj dst).Distinct)
    (hsrc : (Json.obj src).Distinct) : (Json.obj (deepMerge dst src)).Distinct := by
  obtain _ | _ | _ | _ | _ | ⟨-, hmembers⟩ := hsrc
  exact distinct_of_members (fun m hm => mergeValue_distinct m.2 (hmembers m hm)) hdst

/-- For all objects and all orders of their keys: `DeepMerge` leaves the merge of the two documents.
It changes nothing to merge again, all that the source has apart from objects is found at its path,
and what is at a path that the source misses stays. -/
theorem deepMerge_merges (number : String → ν) (d s : String → Option (Document ν))
    {dst src : JsonMap} (hdst : (Json.obj dst).Lists number (.obj d))
    (hsrc : (Json.obj src).Lists number (.obj s)) :
    let merged := (Document.obj d).merge (.obj s)
    (Json.obj (deepMerge dst src)).Lists number merged ∧ merged.merge (.obj s) = merged ∧
      (∀ p v, Document.find p (.obj s) = some v → v.isObject = false →
        Document.find p merged = some v) ∧
      ∀ p, Document.Misses p (.obj s) → Document.find p merged = Document.find p (.obj d) := by
  intro merged
  refine ⟨⟨deepMerge_distinct hdst.distinct hsrc.distinct, ?_⟩, Document.merge_idem _ _, ?_, ?_⟩
  · rw [document_deepMerge hsrc.distinct, hdst.document_eq, hsrc.document_eq]
  · intro p v hfind hv
    exact Document.find_merge_of_leaf hfind hv
  · intro p hmiss
    exact Document.find_merge_of_misses hmiss

/-- An override of one member of an inner object. -/
theorem deepMerge_merges_inner :
    let dst : JsonMap :=
      [("n", .num "1"), ("stream_options", .obj [("include_usage", .bool false)])]
    let src : JsonMap := [("stream_options", .obj [("include_usage", .bool true)])]
    (Json.obj (deepMerge dst src)).Lists id
      (((Json.obj dst).document id).merge ((Json.obj src).document id)) := by
  intro dst src
  have hoption (b : Bool) : (Json.obj [("include_usage", .bool b)]).Distinct :=
    .obj (List.nodup_singleton _) (by simpa using .bool b)
  have hdst : (Json.obj dst).Distinct :=
    .obj (by decide) (by simpa [dst] using ⟨.num _, hoption false⟩)
  have hsrc : (Json.obj src).Distinct := .obj (by decide) (by simpa [src] using hoption true)
  exact (deepMerge_merges id _ _ ⟨hdst, rfl⟩ ⟨hsrc, rfl⟩).1

end LlmProxy.Proxy
