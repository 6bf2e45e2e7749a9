import RapidDb.Core.GarbageOwner

/-!
# Runs of the calls on the free pages

A run records every page id that is given back or handed out. The record has the last transfer
first.
-/

namespace RapidDb

open Transition

/-- A page id that is given back or handed out. -/
inductive PageTransfer where
  | recycled (id : PageID)
  | handedOut (id : PageID)
deriving DecidableEq, Repr

inductive GarbageCall where
  | recyclePage (pid num : ℕ)
  | applyOvfPage (num choice : ℕ) (locked : Bool)
  | applyIndexPages (num choice : ℕ) (locked : Bool)
deriving DecidableEq, Repr

structure GarbageRun where
  owner : GarbageOwner := {}
  transfers : List PageTransfer := []
deriving DecidableEq, Repr

namespace GarbageRun

/-- The transfers of a call are recorded. -/
def record (run : GarbageRun) (owner : GarbageOwner) (transfers : List PageTransfer) : GarbageRun :=
  ⟨owner, transfers ++ run.transfers⟩

/-- One call, none if it does not end regularly. -/
def call (run : GarbageRun) : GarbageCall → Option GarbageRun
  | .recyclePage pid num =>
      (run.owner.recyclePage pid num).map fun owner =>
        run.record owner ((List.range' pid num).map .recycled)
  | .applyOvfPage num choice locked =>
      (run.owner.applyOvfPage num choice locked).map fun (owner, first) =>
        run.record owner ((GarbageOwner.pagesFrom num first).map .handedOut)
  | .applyIndexPages num choice locked =>
      (run.owner.applyIndexPages num choice locked).map fun (owner, pages) =>
        run.record owner (pages.map .handedOut)

/-- Only page ids that are not free are given back, and numbers of pages have 16 bits. -/
def Permitted (run : GarbageRun) : GarbageCall → Prop
  | .recyclePage pid num =>
      num < 2 ^ 16 ∧ pid + num ≤ 2 ^ 32 - 1 ∧
        ∀ id ∈ List.range' pid num, id ∉ run.owner.freePages
  | .applyOvfPage num _ _ => num < 2 ^ 16
  | .applyIndexPages num _ _ => num < 2 ^ 16

/-- Ranges are merged within 16 bits, and all pages of a request are in one range. -/
def Regular (run : GarbageRun) : GarbageCall → Prop
  | .recyclePage pid num => run.owner.RecycleFits pid num
  | .applyOvfPage _ _ _ => True
  | .applyIndexPages num _ locked => run.owner.ServesIndexPages num locked

def PermittedRegular (run : GarbageRun) (garbageCall : GarbageCall) : Prop :=
  run.Permitted garbageCall ∧ run.Regular garbageCall

/-- The ids that the transfers of a list give back. -/
def recycledIds (transfers : List PageTransfer) : List PageID :=
  transfers.filterMap fun
    | .recycled id => some id
    | .handedOut _ => none

/-- The ids that the transfers of a list hand out. -/
def handedOutIds (transfers : List PageTransfer) : List PageID :=
  transfers.filterMap fun
    | .recycled _ => none
    | .handedOut id => some id

/-- A call has ended, and the free pages have changed by what it has recorded. -/
def ChangesBy (run : GarbageRun) (garbageCall : GarbageCall) : Prop :=
  ∃ run' transfers, run.call garbageCall = some run' ∧
    run'.transfers = transfers ++ run.transfers ∧
    (handedOutIds transfers ++ run'.owner.freePages).Perm
      (recycledIds transfers ++ run.owner.freePages)

/-- A page id that has been handed out has been given back since. -/
def Returned (id : PageID) (transfers : List PageTransfer) : Prop :=
  ∀ later earlier, transfers = later ++ .handedOut id :: earlier → .recycled id ∈ later

/-- Between two times that a page id is handed out it is given back. -/
def HandedOutOnce (transfers : List PageTransfer) : Prop :=
  ∀ id later earlier, transfers = later ++ .handedOut id :: earlier → Returned id earlier

section Transfers

variable {id : PageID} {transfers : List PageTransfer}

theorem returned_nil : Returned id [] := by
  intro later earlier split
  exact absurd split.symm (List.append_ne_nil_of_right_ne_nil _ (List.cons_ne_nil _ _))

theorem Returned.cons (returned : Returned id transfers) {transfer : PageTransfer}
    (other : transfer ≠ .handedOut id) : Returned id (transfer :: transfers) := by
  intro later earlier split
  cases later with
  | nil => exact absurd (List.cons.inj split).1 other
  | cons first later =>
      exact List.mem_cons_of_mem first (returned later earlier (List.cons.inj split).2)

theorem returned_recycled : Returned id (.recycled id :: transfers) := by
  intro later earlier split
  cases later with
  | nil => exact nomatch (List.cons.inj split).1
  | cons first later =>
      rw [(List.cons.inj split).1]
      exact List.mem_cons_self

theorem handedOutOnce_nil : HandedOutOnce [] := by
  intro id later earlier split
  exact absurd split.symm (List.append_ne_nil_of_right_ne_nil _ (List.cons_ne_nil _ _))

theorem HandedOutOnce.recycled (once : HandedOutOnce transfers) :
    HandedOutOnce (.recycled id :: transfers) := by
  intro other later earlier split
  cases later with
  | nil => exact nomatch (List.cons.inj split).1
  | cons first later => exact once other later earlier (List.cons.inj split).2

theorem HandedOutOnce.handedOut (once : HandedOutOnce transfers)
    (returned : Returned id transfers) : HandedOutOnce (.handedOut id :: transfers) := by
  intro other later earlier split
  cases later with
  | nil =>
      cases split
      exact returned
  | cons first later => exact once other later earlier (List.cons.inj split).2

theorem recycle_transfers (pages : List PageID) (once : HandedOutOnce transfers) :
    HandedOutOnce (pages.map .recycled ++ transfers) ∧
      ∀ id, id ∈ pages ∨ Returned id transfers →
        Returned id (pages.map .recycled ++ transfers) := by
  induction pages with
  | nil =>
      refine ⟨once, fun id known => ?_⟩
      exact known.resolve_left (List.not_mem_nil)
  | cons page pages ih =>
      refine ⟨ih.1.recycled, fun id known => ?_⟩
      by_cases isPage : id = page
      · subst isPage
        exact returned_recycled
      · apply Returned.cons
        · apply ih.2
          exact known.imp_left fun mem => (List.mem_cons.mp mem).resolve_left isPage
        · exact PageTransfer.noConfusion

theorem handOut_transfers (pages : List PageID) (nodup : pages.Nodup)
    (returned : ∀ id ∈ pages, Returned id transfers) (once : HandedOutOnce transfers) :
    HandedOutOnce (pages.map .handedOut ++ transfers) ∧
      ∀ id, id ∉ pages → Returned id transfers →
        Returned id (pages.map .handedOut ++ transfers) := by
  induction pages with
  | nil => exact ⟨once, fun id _ known => known⟩
  | cons page pages ih =>
      rcases List.nodup_cons.mp nodup with ⟨absent, nodup⟩
      rcases List.forall_mem_cons.mp returned with ⟨first, others⟩
      have rest := ih nodup others
      refine ⟨rest.1.handedOut (rest.2 page absent first), fun id notMem known => ?_⟩
      apply Returned.cons
      · exact rest.2 id (fun mem => notMem (List.mem_cons_of_mem _ mem)) known
      · intro same
        cases same
        exact notMem List.mem_cons_self

theorem recycledIds_recycled (pages : List PageID) : recycledIds (pages.map .recycled) = pages := by
  induction pages with
  | nil => rfl
  | cons page pages ih => exact congrArg (page :: ·) ih

theorem recycledIds_handedOut (pages : List PageID) : recycledIds (pages.map .handedOut) = [] := by
  induction pages with
  | nil => rfl
  | cons page pages ih => exact ih

theorem handedOutIds_recycled (pages : List PageID) : handedOutIds (pages.map .recycled) = [] := by
  induction pages with
  | nil => rfl
  | cons page pages ih => exact ih

theorem handedOutIds_handedOut (pages : List PageID) :
    handedOutIds (pages.map .handedOut) = pages := by
  induction pages with
  | nil => rfl
  | cons page pages ih => exact congrArg (page :: ·) ih

end Transfers

/-- What holds between the calls of a run. -/
structure Consistent (run : GarbageRun) : Prop where
  valid : run.owner.Valid
  once : HandedOutOnce run.transfers
  returned : ∀ id ∈ run.owner.freePages, Returned id run.transfers

section Run

variable {run run' start : GarbageRun} {garbageCall : GarbageCall}

/-- A regular call ends, records what it changes and leaves a consistent state. -/
theorem Consistent.call (consistent : run.Consistent)
    (permitted : run.PermittedRegular garbageCall) :
    ∃ run' transfers, run.call garbageCall = some run' ∧
      run'.transfers = transfers ++ run.transfers ∧
      (handedOutIds transfers ++ run'.owner.freePages).Perm
        (recycledIds transfers ++ run.owner.freePages) ∧ run'.Consistent := by
  have handOut : ∀ {owner' : GarbageOwner} {pages : List PageID}, owner'.Valid →
      (pages ++ owner'.freePages).Perm run.owner.freePages →
      (run.record owner' (pages.map .handedOut)).Consistent := by
    intro owner' pages valid' perm
    have free : ∀ id ∈ pages ++ owner'.freePages, Returned id run.transfers :=
      fun id mem => consistent.returned id (perm.mem_iff.mp mem)
    have nodup := List.nodup_append.mp (perm.nodup_iff.mpr consistent.valid.tidy.nodup)
    have recorded := handOut_transfers pages nodup.1
      (fun id mem => free id (List.mem_append_left _ mem)) consistent.once
    refine ⟨valid', recorded.1, fun id mem => ?_⟩
    apply recorded.2 id
    · intro handed
      exact nodup.2.2 id handed id mem rfl
    · exact free id (List.mem_append_right _ mem)
  rcases permitted with ⟨permitted, regular⟩
  cases garbageCall with
  | recyclePage pid num =>
      rcases permitted with ⟨short, bounded, notFree⟩
      rcases consistent.valid.recyclePage regular short bounded notFree with
        ⟨owner', recycled, valid', perm⟩
      have recorded := recycle_transfers (List.range' pid num) consistent.once
      refine ⟨run.record owner' ((List.range' pid num).map .recycled), _, ?_, rfl, ?_, valid',
        recorded.1, ?_⟩
      · exact congrArg (Option.map _) recycled
      · rw [recycledIds_recycled, handedOutIds_recycled]
        exact perm
      · intro id mem
        apply recorded.2 id
        exact (List.mem_append.mp (perm.mem_iff.mp mem)).imp_right (consistent.returned id)
  | applyOvfPage num choice locked =>
      rcases consistent.valid.applyOvfPage num choice locked with ⟨owner', first, applied,
        valid', perm⟩
      refine ⟨_, (GarbageOwner.pagesFrom num first).map .handedOut, ?_, rfl, ?_,
        handOut valid' perm⟩
      · exact congrArg (Option.map _) applied
      · rw [recycledIds_handedOut, handedOutIds_handedOut]
        exact perm
  | applyIndexPages num choice locked =>
      rcases consistent.valid.applyIndexPages regular choice with ⟨owner', pages, applied,
        valid', perm⟩
      refine ⟨_, pages.map .handedOut, ?_, rfl, ?_, handOut valid' perm⟩
      · exact congrArg (Option.map _) applied
      · rw [recycledIds_handedOut, handedOutIds_handedOut]
        exact perm

theorem Consistent.preserved (consistent : run.Consistent)
    (permitted : run.PermittedRegular garbageCall) (called : run.call garbageCall = some run') :
    run'.Consistent := by
  rcases consistent.call permitted with ⟨run'', transfers, called', -, -, consistent'⟩
  rw [called] at called'
  cases called'
  exact consistent'

/-- What is expected of the bookkeeping in a state and of each call that can follow. -/
structure WellKept (run : GarbageRun) (possible : GarbageRun → GarbageCall → Prop) : Prop where
  mirrors : GarbageOwner.Mirrors run.owner.treeFreePage run.owner.rangePage
  nonempty : ∀ range ∈ run.owner.treeFreePage, 0 < range.2
  disjoint : run.owner.treeFreePage.Pairwise GarbageOwner.Apart
  total : run.owner.totalGarbagePages = (run.owner.treeFreePage.map Prod.snd).sum
  changes : ∀ garbageCall, possible run garbageCall → run.ChangesBy garbageCall
  once : HandedOutOnce run.transfers

theorem Consistent.wellKept (consistent : run.Consistent) : run.WellKept PermittedRegular := by
  have tidy := consistent.valid.tidy
  refine ⟨tidy.mirrors, tidy.nonempty, ?_, consistent.valid.total, ?_, consistent.once⟩
  · exact GarbageOwner.apart_of_nodup tidy.nodup tidy.nonempty
  · intro garbageCall permitted
    rcases consistent.call permitted with ⟨run', transfers, called, recorded, perm, -⟩
    exact ⟨run', transfers, called, recorded, perm⟩

/-- Free pages are kept well in every run of regular calls. -/
theorem wellKept_of_regular (valid : start.owner.Valid) (new : start.transfers = [])
    (runs : Reaches call PermittedRegular start run) : run.WellKept PermittedRegular := by
  apply Consistent.wellKept
  apply runs.preserves
  · refine ⟨valid, new ▸ handedOutOnce_nil, fun id _ => ?_⟩
    rw [new]
    exact returned_nil
  · intro run garbageCall run' permitted consistent called
    exact consistent.preserved permitted called

/-- Three pages are given back and two of them are handed out. -/
def servedRun : GarbageRun :=
  ⟨⟨1, [(12, 1)], [(1, [12])]⟩,
    [.handedOut 10, .handedOut 11, .recycled 10, .recycled 11, .recycled 12]⟩

theorem wellKept_servedRun : servedRun.WellKept PermittedRegular := by
  have first : Reaches call PermittedRegular {} ⟨⟨3, [(10, 3)], [(3, [10])]⟩,
      [.recycled 10, .recycled 11, .recycled 12]⟩ := by
    refine (Reaches.refl _).tail (.recyclePage 10 3) ⟨⟨by decide, by decide, ?_⟩, ?_⟩ rfl
    · exact fun id _ => List.not_mem_nil
    · exact ⟨by decide, nofun, nofun⟩
  have second : Reaches call PermittedRegular {} servedRun := by
    have short : 2 < 2 ^ 16 := by decide
    refine first.tail (.applyIndexPages 2 0 true) ⟨short, ?_⟩ rfl
    exact Or.inr (Or.inr (Or.inr ⟨(10, 3), List.mem_cons_self, by decide⟩))
  exact wellKept_of_regular GarbageOwner.Valid.empty rfl second

/-- Two pages are asked for where the free one is alone: none is handed out, but the total is
decreased by both. -/
theorem not_wellKept :
    ¬∀ run, Reaches call Permitted {} run → run.WellKept Permitted := by
  intro kept
  have first : Reaches call Permitted {} ⟨⟨1, [(10, 1)], [(1, [10])]⟩, [.recycled 10]⟩ := by
    refine (Reaches.refl _).tail (.recyclePage 10 1) ⟨by decide, by decide, ?_⟩ rfl
    exact fun id _ => List.not_mem_nil
  have second : Reaches call Permitted {}
      ⟨⟨2 ^ 32 - 1, [(10, 1)], [(1, [10])]⟩, [.recycled 10]⟩ :=
    first.tail (.applyIndexPages 2 0 true) (by decide : 2 < 2 ^ 16) rfl
  exact absurd (kept _ second).total (by decide)

end Run

end GarbageRun

end RapidDb
