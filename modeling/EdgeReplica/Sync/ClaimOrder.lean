-- SUMMARY: The order of the hash claims and of the page bytes makes no difference to where a session ends.
import EdgeReplica.Sync.Transcript

/-!
# Claims in any order

The transcript of a session is made of the answers to its claims, the walk and the
totals. Two orders of the same claims permute the answers and leave the walk and the
totals as they are, and page bytes of distinct pages may be written in any order.
-/

namespace EdgeReplica

/-! ## Lists up to their order -/

theorem byteSum_perm {l₁ l₂ : List PageDataEntry} (h : l₁.Perm l₂) : byteSum l₁ = byteSum l₂ :=
  (h.map _).sum_nat

theorem completeOf_perm {l₁ l₂ : List PageDataEntry} (h : l₁.Perm l₂) :
    completeOf l₁ = completeOf l₂ := by
  rw [completeOf, completeOf, h.length_eq, byteSum_perm h]

theorem carried_perm {l₁ l₂ : List SyncMessage} (h : l₁.Perm l₂) :
    (carried l₁).Perm (carried l₂) := h.flatMap_right _

theorem requested_perm {l₁ l₂ : List SyncMessage} (h : l₁.Perm l₂) :
    (requested l₁).Perm (requested l₂) := h.filterMap _

/-- Entries of distinct pages may be written in any order. -/
theorem Pages.replay_perm [Blake3] {pages : Pages} {l₁ l₂ : List PageDataEntry}
    (h : l₁.Perm l₂) (hnodup : (l₁.map PageDataEntry.pageNo).Nodup) :
    replay pages l₁ = replay pages l₂ := by
  have hpages := h.map PageDataEntry.pageNo
  refine Std.ExtTreeMap.ext_getElem? fun {p} => ?_
  by_cases hmem : p ∈ l₁.map PageDataEntry.pageNo
  · obtain ⟨entry, hentry, rfl⟩ := List.mem_map.mp hmem
    rw [getElem?_replay_of_mem _ hnodup hentry,
      getElem?_replay_of_mem _ (hpages.nodup_iff.mp hnodup) (h.subset hentry)]
  · rw [getElem?_replay_of_notMem _ hmem,
      getElem?_replay_of_notMem _ fun hmem' => hmem (hpages.symm.subset hmem')]

namespace SyncFsm

/-! ## The parts of a transcript -/

section

variable (direction : Direction) (pages : Pages)

theorem answers_perm {claims claims' : List HashClaim} (h : claims.Perm claims') :
    (answers direction pages claims).Perm (answers direction pages claims') := h.filterMap _

theorem replies_perm {claims claims' : List HashClaim} (h : claims.Perm claims') :
    (replies direction pages claims).Perm (replies direction pages claims') := by
  rw [replies, replies, List.toFinset_eq_of_perm _ _ (h.map Prod.fst)]
  exact (answers_perm direction pages h).append_right _

theorem finished_perm {claimed claimed' : List UInt32} {moved moved' : List PageDataEntry}
    (hclaimed : claimed.Perm claimed') (hmoved : moved.Perm moved') :
    finished direction pages claimed moved = finished direction pages claimed' moved' := by
  rw [finished, finished, List.toFinset_eq_of_perm _ _ hclaimed, hmoved.length_eq,
    byteSum_perm hmoved]

/-- The pages that are asked for are pages of the claims. -/
theorem requested_answers_sublist (claims : List HashClaim) :
    (requested (answers direction pages claims)).Sublist (claims.map Prod.fst) := by
  induction claims with
  | nil => exact .refl _
  | cons claim claims ih =>
    have hone : (requested (answer direction pages claim).toList).Sublist [claim.1] := by
      unfold answer
      split
      · exact List.nil_sublist _
      · cases direction with
        | push => exact .refl _
        | pull => cases pages[claim.1]? <;> exact List.nil_sublist _
    rw [answers_cons, requested, List.filterMap_append, List.map_cons, ← List.singleton_append]
    exact hone.append ih

end

/-! ## The sessions -/

variable {direction : Direction} {pages : Pages}

/-- The entries of a session whose client sends each page it is asked for once. -/
theorem data_pages {claims : List HashClaim} {data : List (Int64 × PageDataEntry)}
    {bytes : UInt32 → Bytes} (hdata : (data.map Prod.snd).Perm
      ((requested (answers direction pages claims)).map fun p => ⟨p, bytes p⟩)) :
    (data.map fun entry => entry.2.pageNo).Perm (requested (answers direction pages claims)) := by
  have hpages := hdata.map PageDataEntry.pageNo
  rw [List.map_map, List.map_map] at hpages
  simpa [Function.comp_def] using hpages

variable [Blake3]

/-- Neither the order of the hash claims nor that of the page bytes makes a difference,
over any storage whose calls succeed: the session ends with the same pages, the same
machine and the same totals, and sends the same frames up to their order. -/
theorem claim_order {σ : Type} [LawfulStorage σ] (direction : Direction) (s : σ)
    (pageSize clientMax : UInt32) (clock₁ clock₂ clock₁' clock₂' : Int64)
    (bytes : UInt32 → Bytes) {claims claims' : List (Int64 × HashClaim)}
    {data data' : List (Int64 × PageDataEntry)}
    (hdistinct : (claims.map fun claim => claim.2.1).Nodup)
    (hclaims : (claims.map Prod.snd).Perm (claims'.map Prod.snd))
    (hdata : (data.map Prod.snd).Perm ((requested (answers direction (LawfulStorage.pages s)
      (claims.map Prod.snd))).map fun p => ⟨p, bytes p⟩))
    (hdata' : (data'.map Prod.snd).Perm (data.map Prod.snd)) :
    ∃ (w w' : World σ) (last : SyncMessage) (front front' : List SyncMessage),
      Machine.run accept (script pageSize clientMax clock₁ clock₂ claims data)
        (start direction s fun _ => none) = some w ∧
      Machine.run accept (script pageSize clientMax clock₁' clock₂' claims' data')
        (start direction s fun _ => none) = some w' ∧
      LawfulStorage.pages w'.storage = LawfulStorage.pages w.storage ∧ w'.fsm = w.fsm ∧
      sentBy w.history = front ++ [last] ∧ sentBy w'.history = front' ++ [last] ∧
      last = .syncComplete w.fsm.pagesTransferred w.fsm.bytesTransferred ∧
      front'.Perm front := by
  have hanswers := answers_perm direction (LawfulStorage.pages s) hclaims
  have hreplies := replies_perm direction (LawfulStorage.pages s) hclaims
  have hclaimed :
      (claims.map fun claim => claim.2.1).Perm (claims'.map fun claim => claim.2.1) := by
    have hfst := hclaims.map Prod.fst
    rwa [List.map_map, List.map_map] at hfst
  have hasked := data_pages hdata
  have hasked' := (data_pages (hdata'.trans hdata)).trans (requested_perm hanswers)
  have hnodup : (data.map fun entry => entry.2.pageNo).Nodup := by
    refine hasked.nodup_iff.mpr ((requested_answers_sublist _ _ _).nodup ?_)
    rwa [List.map_map]
  have hnodup' : (data'.map fun entry => entry.2.pageNo).Nodup :=
    (hasked'.trans ((requested_perm hanswers).symm.trans hasked.symm)).nodup_iff.mpr hnodup
  have hmoved := (carried_perm hreplies.symm).append hdata'
  obtain ⟨w, hrun, hw, hfsm, hsent⟩ :=
    exists_script s pageSize clientMax clock₁ clock₂ hasked hnodup
  obtain ⟨w', hrun', hw', hfsm', hsent'⟩ :=
    exists_script s pageSize clientMax clock₁' clock₂' hasked' hnodup'
  rw [completeOf_perm hmoved] at hsent'
  refine ⟨w, w', _, _, _, hrun, hrun', ?_, ?_, hsent, hsent', ?_, hreplies.symm.cons _⟩
  · rw [hw, hw', Pages.replay_perm hdata' (by rwa [List.map_map])]
  · rw [hfsm, hfsm', finished_perm _ _ hclaimed.symm hmoved]
  · rw [hfsm]
    rfl

section Samples

omit [Blake3]

/-- A push of two pages, in both orders. -/
theorem claim_order_two :
    letI := Blake3.onSamples
    letI start : World InMemorySyncStorage := start .push (∅ : Pages) fun _ => none
    ∃ w w', Machine.run accept (script 4096 2 0 0 [(0, 1, [7]), (0, 2, [8])]
        [(0, ⟨1, [1]⟩), (0, ⟨2, [2]⟩)]) start = some w ∧
      Machine.run accept (script 4096 2 0 0 [(0, 2, [8]), (0, 1, [7])]
        [(0, ⟨2, [2]⟩), (0, ⟨1, [1]⟩)]) start = some w' ∧
      w'.storage = w.storage ∧ w'.fsm = w.fsm := by
  let _ := Blake3.onSamples
  obtain ⟨w, w', -, -, -, hrun, hrun', hstorage, hfsm, -⟩ :=
    @claim_order _ InMemorySyncStorage _ .push (∅ : Pages) 4096 2 0 0 0 0
      (fun p => if p = 1 then [1] else [2])
      [(0, 1, [7]), (0, 2, [8])] [(0, 2, [8]), (0, 1, [7])]
      [(0, ⟨1, [1]⟩), (0, ⟨2, [2]⟩)] [(0, ⟨2, [2]⟩), (0, ⟨1, [1]⟩)]
      (by decide) (by decide) (by decide +kernel) (by decide)
  exact ⟨w, w', hrun, hrun', hstorage, hfsm⟩

end Samples

end SyncFsm

end EdgeReplica
