import RapidDb.Core.UniqueKey

/-!
# What `UpdateAction` reports

`UpdateAction` first releases the lock of the record it finds if the transactions of the lock are
over, and takes the record out if it is deleted. Only then it looks at the action. A refused
insert or delete leaves the page as it is by then. A refused update does too, but the result
`IN_PAGE` is stored over the error.
-/

namespace RapidDb

open Bytes

namespace LeafRecord

theorem addr_releaseInto {record : LeafRecord} {target : RecordBody} {out : Released}
    (released : releaseInto target record = some out) : out.record.body.addr = target.addr := by
  induction record generalizing target out with
  | unlocked body => cases released
  | locked body lock =>
      simp only [releaseInto] at released
      split at released
      · cases released
        rfl
      · split at released
        · cases released
          rfl
        · cases released
          rfl
  | versioned body lock undoRec ih =>
      simp only [releaseInto] at released
      split at released
      · cases released
        rfl
      · split at released
        · split at released
          · cases released
            simp [moveAssign, clearBody]
          · split at released
            · cases released
              simp [moveAssign, clearBody]
            · rcases Option.map_eq_some_iff.mp released with ⟨inner, innerEq, rfl⟩
              refine (ih innerEq).trans ?_
              simp [moveAssign, clearBody]
        · cases released
          rfl

theorem releaseInto_isSome (target : RecordBody) {record : LeafRecord} {lock : RecordLock}
    (head : record.recLock = some lock) : ∃ out, releaseInto target record = some out := by
  induction record generalizing target lock with
  | unlocked body => cases head
  | locked body own =>
      simp only [releaseInto]
      split
      · exact ⟨_, rfl⟩
      · split <;> exact ⟨_, rfl⟩
  | versioned body own undoRec ih =>
      simp only [releaseInto]
      split
      · exact ⟨_, rfl⟩
      · split
        · split
          · exact ⟨_, rfl⟩
          · next locked =>
              split
              · exact ⟨_, rfl⟩
              · rw [recLock_moveAssign] at locked
                cases older : undoRec.recLock with
                | none => simp [older] at locked
                | some lock =>
                    rcases ih (clearBody (moveAssign target (unlocked body)).body) older with
                      ⟨out, outEq⟩
                    rw [outEq]
                    exact ⟨_, rfl⟩
        · exact ⟨_, rfl⟩

theorem prepare_isSome (record : LeafRecord) :
    ∃ ready, record.prepare = some ready ∧ ready.body.addr = record.body.addr := by
  unfold prepare
  split
  · next able =>
      cases head : record.recLock with
      | none => simp [releaseLockAble, head] at able
      | some lock =>
          rcases releaseInto_isSome record.body head with ⟨out, released⟩
          refine ⟨out.record, ?_, addr_releaseInto released⟩
          rw [releaseLock, released]
          rfl
  · exact ⟨record, rfl, rfl⟩

end LeafRecord

namespace LeafPage

variable {type : IndexType} {page : LeafPage} {lr : LeafRecord}

/-- The record is the current version of one of the page. -/
def OnTop (lr : LeafRecord) (page : LeafPage) : Prop :=
  ∃ record ∈ page.records, record.body = lr.body ∧ record.recLock = lr.recLock

/-- The result says that the record is in the page exactly if it is on top there, and that there
is an error exactly if the page is the given one. -/
def Reports (lr : LeafRecord) (unchanged page' : LeafPage) (result : RecordResult) : Prop :=
  (result = .inPage ↔ OnTop lr page') ∧ (result = .error ↔ page' = unchanged)

/-- An update meets a record that another transaction has locked. -/
def RefusesUpdate (type : IndexType) (page : LeafPage) (lr : LeafRecord) : Prop :=
  lr.getAction = .update ∧ ∃ ready pos old, page.makeRoom type lr = some (ready, true, pos) ∧
    ready.records[pos]? = some old ∧ old.chained lr = some none

/-- A delete finds its record, as `UpdateAction` asserts. -/
def FindsDeleted (type : IndexType) (page : LeafPage) (lr : LeafRecord) : Prop :=
  lr.getAction = .delete → ∃ ready pos, page.makeRoom type lr = some (ready, true, pos)

/-- The record found has no lock that can be released and is not deleted. -/
def FindsSettled (type : IndexType) (page : LeafPage) (lr : LeafRecord) : Prop :=
  ∀ pos old, page.searchRecord type lr = (true, pos) → page.records[pos]? = some old →
    old.releaseLockAble = false ∧ old.isDelete = false

theorem replaceRecord_self {pos : ℕ} (inside : pos < page.records.length) :
    page.replaceRecord pos page.records[pos] page.records[pos] = page := by
  unfold replaceRecord
  simp

/-- The page after the first part of `UpdateAction` has no new object, and is the same page unless
there was something to release or to take out. -/
theorem makeRoom_isSome (type : IndexType) (page : LeafPage) (lr : LeafRecord) :
    ∃ ready bFind pos, page.makeRoom type lr = some (ready, bFind, pos) ∧
      (bFind = true → pos < ready.records.length) ∧
      (∀ record ∈ ready.records, ∃ old ∈ page.records, record.body.addr = old.body.addr) ∧
      (page.FindsSettled type lr → ready = page) := by
  unfold makeRoom FindsSettled
  generalize searched : page.searchRecord type lr = found
  rcases found with ⟨_ | _, pos⟩
  · exact ⟨page, false, pos, rfl, nofun, fun record mem => ⟨record, mem, rfl⟩, fun _ => rfl⟩
  · have inside : pos < page.records.length := BinarySearch.search_inside searched
    have atPos := List.getElem?_eq_getElem inside
    rcases LeafRecord.prepare_isSome page.records[pos] with ⟨record, prepared, sameAddr⟩
    have objects : ∀ other ∈ (page.replaceRecord pos page.records[pos] record).records,
        ∃ old ∈ page.records, other.body.addr = old.body.addr := by
      intro other mem
      rcases List.mem_or_eq_of_mem_set mem with mem | rfl
      · exact ⟨other, mem, rfl⟩
      · exact ⟨_, List.getElem_mem inside, sameAddr⟩
    have same : page.records[pos].releaseLockAble = false → record = page.records[pos] := by
      intro kept
      simp only [LeafRecord.prepare, kept, Bool.false_eq_true, if_false] at prepared
      exact (Option.some.inj prepared).symm
    simp only [atPos, Option.bind_some, prepared, Option.map_some]
    split
    · next deleted =>
        refine ⟨_, false, pos, rfl, nofun, ?_, ?_⟩
        · intro other mem
          exact objects other (List.mem_of_mem_eraseIdx mem)
        · intro settled
          rcases settled pos _ rfl atPos with ⟨kept, present⟩
          rw [same kept, present] at deleted
          cases deleted
    · refine ⟨_, true, pos, rfl, ?_, objects, ?_⟩
      · intro _
        simpa [replaceRecord] using inside
      · intro settled
        rw [same (settled pos _ rfl atPos).1]
        exact replaceRecord_self inside

section Reports

variable {ready page' : LeafPage}

section

variable (fresh : ∀ record ∈ ready.records, record.body.addr ≠ lr.body.addr)

include fresh

theorem not_onTop : ¬OnTop lr ready := by
  rintro ⟨record, mem, body, -⟩
  exact fresh record mem (congrArg RecordBody.addr body)

theorem reports_error : Reports lr ready ready .error :=
  ⟨iff_of_false nofun (not_onTop fresh), iff_of_true rfl rfl⟩

theorem reports_inPage (onTop : OnTop lr page') : Reports lr ready page' .inPage := by
  refine ⟨iff_of_true rfl onTop, iff_of_false nofun ?_⟩
  rintro rfl
  exact not_onTop fresh onTop

end

theorem onTop_inserted (pos : ℕ) {tempDataLength : ℤ} :
    OnTop lr { ready with
      records := ready.records.take pos ++ lr :: ready.records.drop pos
      tempDataLength := tempDataLength } :=
  ⟨lr, List.mem_append_right _ List.mem_cons_self, rfl, rfl⟩

theorem onTop_chained {old version : LeafRecord} {pos : ℕ} {tempDataLength : ℤ}
    (chained : old.chained lr = some (some version)) (inside : pos < ready.records.length) :
    OnTop lr { ready with
      records := ready.records.set pos version
      tempDataLength := tempDataLength } := by
  rcases eq_of_chained chained with ⟨lock, head, rfl⟩
  exact ⟨_, List.mem_set inside _, rfl, head.symm⟩

end Reports

/-- What `UpdateAction` reports of a new record: it is in the page exactly if it is on top there,
and refused exactly if the page is as the release of the lock of the record found has left it. -/
theorem updateAction_reports (type : IndexType) (page : LeafPage) (lr : LeafRecord)
    (lock : RecordLock) (single : lr = .locked lr.body lock) (holder : lock.lstTxid ≠ [])
    (action : lock.actType = .insert ∨ lock.actType = .update ∨ lock.actType = .delete)
    (fresh : ∀ record ∈ page.records, record.body.addr ≠ lr.body.addr)
    (finds : page.FindsDeleted type lr) (granted : ¬page.RefusesUpdate type lr) :
    ∃ ready bFind pos page' result, page.makeRoom type lr = some (ready, bFind, pos) ∧
      (page.FindsSettled type lr → ready = page) ∧
      page.updateAction type lr = some (page', result) ∧ Reports lr ready page' result := by
  rcases makeRoom_isSome type page lr with ⟨ready, bFind, pos, made, inside, objects, settled⟩
  have freshReady : ∀ record ∈ ready.records, record.body.addr ≠ lr.body.addr := by
    intro record mem
    rcases objects record mem with ⟨old, oldMem, same⟩
    rw [same]
    exact fresh old oldMem
  have actionEq : lr.getAction = lock.actType := by
    rw [single]
    rfl
  have head : lr.recLock = some lock := by
    rw [single]
    rfl
  rcases List.exists_cons_of_ne_nil holder with ⟨txid, others, txids⟩
  have chains : ∀ old : LeafRecord, ∃ version, old.chained lr = some version := by
    intro old
    simp [LeafRecord.chained, head, txids]
  unfold updateAction
  simp only [made, Option.bind_some]
  rcases action with insert | update | delete
  · simp only [actionEq, insert]
    cases bFind with
    | true => exact ⟨ready, true, pos, ready, .error, rfl, settled, rfl, reports_error freshReady⟩
    | false =>
        exact ⟨ready, false, pos, _, .inPage, rfl, settled, rfl,
          reports_inPage freshReady (onTop_inserted pos)⟩
  · simp only [actionEq, update]
    cases bFind with
    | true =>
        have inPage := inside rfl
        have atPos := List.getElem?_eq_getElem inPage
        rcases chains ready.records[pos] with ⟨version, chained⟩
        cases version with
        | none =>
            exfalso
            exact granted ⟨actionEq.trans update, ready, pos, _, made, atPos, chained⟩
        | some version =>
            simp only [if_true, atPos, Option.bind_some, chained, Option.map_some]
            exact ⟨ready, true, pos, _, .inPage, rfl, settled, rfl,
              reports_inPage freshReady (onTop_chained chained inPage)⟩
    | false =>
        exact ⟨ready, false, pos, _, .inPage, rfl, settled, rfl,
          reports_inPage freshReady (onTop_inserted pos)⟩
  · rcases finds (actionEq.trans delete) with ⟨found, place, foundEq⟩
    rw [made] at foundEq
    cases foundEq
    have inPage := inside rfl
    have atPos := List.getElem?_eq_getElem inPage
    rcases chains ready.records[pos] with ⟨version, chained⟩
    simp only [actionEq, delete, if_true, atPos, Option.bind_some, chained, Option.map_some]
    cases version with
    | none => exact ⟨ready, true, pos, ready, .error, rfl, settled, rfl, reports_error freshReady⟩
    | some version =>
        exact ⟨ready, true, pos, _, .inPage, rfl, settled, rfl,
          reports_inPage freshReady (onTop_chained chained inPage)⟩

/-- An index entry under the lock of its insert. -/
def sampleEntry (addr : ℕ) (txid : TranID) (status : RecordStatus) : LeafRecord :=
  .locked { addr := addr, bysVal := secondaryBytes [5] [7] 1, bSole := true, indexType := .unique }
    { RecordLock.new (addr + 1) .insert status false .init ⟨txid, txid⟩ with stmt := none }

/-- A page with one entry, whose insert has been committed. -/
def samplePage : LeafPage where
  records := [sampleEntry 1 1 .commited]
  parentPageId := none
  tempDataLength := 16

theorem updateAction_reports_sampleEntry :
    ∃ ready bFind pos page' result,
      samplePage.makeRoom .unique (sampleEntry 3 2 .init) = some (ready, bFind, pos) ∧
      (samplePage.FindsSettled .unique (sampleEntry 3 2 .init) → ready = samplePage) ∧
      samplePage.updateAction .unique (sampleEntry 3 2 .init) = some (page', result) ∧
      Reports (sampleEntry 3 2 .init) ready page' result :=
  updateAction_reports .unique samplePage (sampleEntry 3 2 .init) _ rfl (by decide)
    (Or.inl rfl) (by decide) nofun fun refuses => nomatch refuses.1

/-- The refused insert of a key releases the lock of the entry that is there, and the length of the
committed records grows. -/
theorem not_reports_sampleEntry :
    ¬∀ page' result,
      samplePage.updateAction .unique (sampleEntry 3 2 .init) = some (page', result) →
        Reports (sampleEntry 3 2 .init) samplePage page' result := by
  intro reports
  have updated : (samplePage.updateAction .unique (sampleEntry 3 2 .init)).map
      (fun out => (out.2, out.1.committedDataLength)) = some (.error, 16) := by decide +kernel
  rcases Option.map_eq_some_iff.mp updated with ⟨⟨page', result⟩, outEq, fields⟩
  rcases Prod.mk.inj fields with ⟨resultEq, lengthEq⟩
  have same := (reports page' result outEq).2.mp resultEq
  rw [same] at lengthEq
  exact absurd lengthEq (show samplePage.committedDataLength ≠ 16 by decide)

end LeafPage

end RapidDb
