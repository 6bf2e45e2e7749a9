import RapidDb.Core.UniqueKey

/-!
# Runs of the keys of a page

A page of a unique index goes through new records, reads, changes of its rows, marks and
releases, in any order. Its records stay in the order of their keys, each key has one record
at most, and this record denotes the content that the last committed transaction gave to the key.
-/

namespace RapidDb

open Transition

namespace LeafRecord

/-- The events that leave marks; all other events release the record they meet first. -/
def RowEvent.isMark : RowEvent → Bool
  | .mark _ _ _ => true
  | _ => false

def RowEvent.isInsert : RowEvent → Bool
  | .insert _ _ _ _ _ => true
  | _ => false

/-- A record as the statements make it: under the lock of its insert, update or delete. -/
structure IsChange (lr : LeafRecord) (lock : RecordLock) : Prop where
  single : lr = locked lr.body lock
  action : lock.actType = .insert ∨ lock.actType = .update ∨ lock.actType = .delete
  initial : lock.recStatus = .init
  flag : lr.isDelete = decide (lock.actType = .delete)

/-- What has to hold when `UpdateAction` meets the record of its key: an `INSERT` finds no
deleted record with a lock, an `UPDATE` or `DELETE` finds the record it changes. -/
def SafeAction (lr : LeafRecord) (slot : Option LeafRecord) : Prop :=
  (∀ old ∈ slot, old.SafeRelease) ∧
    if lr.getAction = .insert then
      ∀ old ∈ slot, ∀ ready ∈ old.prepare, ready.isDelete = true → ready.recLock = none
    else
      ∃ old ∈ slot, ∃ ready ∈ old.prepare, ready.isDelete = false

/-- What an operation on the record of a key has to keep. -/
structure SlotKept (type : IndexType) (key : List Byte) (committed : Option RowContent)
    (slot slot' : Option LeafRecord) (committed' : Option RowContent) : Prop where
  row : RowInv { record := slot', committed := committed' }
  oneKey : ∀ record ∈ slot', record.OneKey type key
  kept : ∀ record ∈ slot, ∀ version ∈ record.versions, version.2.isPending = true →
    ∃ record' ∈ slot', record'.HasVersion version

section Slot

variable {type : IndexType} {key : List Byte} {committed : Option RowContent}

theorem IsChange.rowWell {lr : LeafRecord} {lock : RecordLock} (change : lr.IsChange lock)
    (insert : lock.actType = .insert) : lr.RowWell ∧ lr.committedOf = none := by
  have flag : lr.body.bDelete = false := by
    have flagEq := change.flag
    rw [insert] at flagEq
    exact flagEq
  rw [change.single]
  refine ⟨Or.inr ⟨insert, flag, Or.inl change.initial⟩, ?_⟩
  rw [committedOf_locked_insert insert, if_neg (by rw [change.initial]; decide)]

theorem IsChange.rowWell_versioned {lr old : LeafRecord} {lock : RecordLock}
    (change : lr.IsChange lock) (notInsert : lock.actType ≠ .insert) (well : old.RowWell)
    (present : old.isDelete = false) :
    (versioned lr.body lock old).RowWell ∧
      (versioned lr.body lock old).committedOf = old.base := by
  have writes := change.action.resolve_left notInsert
  refine ⟨⟨writes, change.flag, Or.inl change.initial, ?_, present, well⟩, ?_⟩
  · intro commited
    rw [change.initial] at commited
    cases commited
  · exact committedOf_versioned_init writes change.initial

theorem updateSlot_insert {lr : LeafRecord} (insert : lr.getAction = .insert)
    (slot : Option LeafRecord) : LeafPage.updateSlot lr slot = insertRow slot lr := by
  cases slot with
  | none => simp [LeafPage.updateSlot, LeafPage.roomFor, insertRow, insert]
  | some old =>
      cases prepared : old.prepare with
      | none => simp [LeafPage.updateSlot, LeafPage.roomFor, insertRow, prepared]
      | some ready =>
          cases deleted : ready.isDelete <;>
            simp [LeafPage.updateSlot, LeafPage.roomFor, insertRow, prepared, insert, deleted]

theorem slotKept_updateSlot {lr : LeafRecord} {lock : RecordLock}
    {slot slot' : Option LeafRecord} (change : lr.IsChange lock)
    (inv : RowInv { record := slot, committed := committed })
    (oneKey : ∀ record ∈ slot, record.OneKey type (lr.indexKey type))
    (safe : lr.SafeAction slot) (updated : LeafPage.updateSlot lr slot = some slot') :
    SlotKept type (lr.indexKey type) committed slot slot' committed := by
  have lrKey : lr.OneKey type (lr.indexKey type) := by
    rw [change.single]
    rfl
  have action : lr.getAction = lock.actType := by
    rw [change.single]
    rfl
  by_cases insert : lock.actType = .insert
  · have isInsert : lr.getAction = .insert := action.trans insert
    rw [updateSlot_insert isInsert] at updated
    rcases change.rowWell insert with ⟨newWell, newCommitted⟩
    have free := safe.2
    rw [if_pos isInsert] at free
    refine ⟨rowInv_insertRow inv newWell newCommitted
      (fun old mem => ⟨safe.1 old mem, free old mem⟩)
      updated, ?_, ?_⟩
    · intro record mem
      cases slot with
      | none =>
          cases updated
          cases mem
          exact lrKey
      | some old =>
          rcases Option.map_eq_some_iff.mp updated with ⟨ready, prepared, rfl⟩
          cases deleted : ready.isDelete with
          | true =>
              simp only [deleted, if_true] at mem
              cases mem
              exact lrKey
          | false =>
              simp only [deleted] at mem
              cases mem
              refine (oneKey_prepare (oneKey old rfl) prepared).resolve_right ?_
              rintro ⟨-, gone⟩
              rw [deleted] at gone
              cases gone
    · intro old mem version versionMem pending
      cases mem
      rcases Option.map_eq_some_iff.mp updated with ⟨ready, prepared, rfl⟩
      have keeps := keepsPending_prepare inv.1 prepared
      cases deleted : ready.isDelete with
      | true =>
          have noLock := free old rfl ready prepared deleted
          exact ⟨lr, rfl, (keeps.trans (keepsPending_of_recLock_eq_none noLock lr)).hasVersion
            versionMem pending⟩
      | false => exact ⟨ready, rfl, keeps.hasVersion versionMem pending⟩
  · have notInsert : lr.getAction ≠ .insert := fun isInsert => insert (action.symm.trans isInsert)
    have finds := safe.2
    rw [if_neg notInsert] at finds
    rcases finds with ⟨old, mem, ready, prepared, present⟩
    cases mem
    have same := sameRow_prepare inv.1 (safe.1 old rfl) prepared
    have readyKey : ready.OneKey type (lr.indexKey type) := by
      refine (oneKey_prepare (oneKey old rfl) prepared).resolve_right ?_
      rintro ⟨-, gone⟩
      rw [present] at gone
      cases gone
    have keeps := keepsPending_prepare inv.1 prepared
    have readyInv : RowInv { record := some ready, committed := committed } :=
      ⟨same.well, inv.2.trans same.committed.symm⟩
    have chainedEq : (ready.chained lr).map (fun version => some (version.getD ready)) =
        some slot' := by
      have prepareEq : old.prepare = some ready := prepared
      rcases change.action.resolve_left insert with update | delete
      · simpa [LeafPage.updateSlot, LeafPage.roomFor, prepareEq, present, action, update] using
          updated
      · simpa [LeafPage.updateSlot, LeafPage.roomFor, prepareEq, present, action, delete] using
          updated
    rcases Option.map_eq_some_iff.mp chainedEq with ⟨version, versionEq, rfl⟩
    cases version with
    | none =>
        refine ⟨readyInv, ?_, ?_⟩
        · rintro record mem
          cases mem
          exact readyKey
        · intro record mem version versionMem pending
          cases mem
          exact ⟨ready, rfl, keeps.hasVersion versionMem pending⟩
    | some version =>
        rcases LeafPage.eq_of_chained versionEq with ⟨own, head, rfl⟩
        have ownEq : own = lock := by
          rw [change.single] at head
          exact (Option.some.inj head).symm
        subst ownEq
        rcases change.rowWell_versioned insert same.well present with ⟨newWell, newCommitted⟩
        refine ⟨⟨newWell, ?_⟩, ?_, ?_⟩
        · simp only [Option.getD_some]
          rw [newCommitted, ← committedOf_eq_base_of_kept same.well same.kept]
          exact readyInv.2
        · rintro record mem
          cases mem
          exact ⟨lrKey.indexKey, readyKey⟩
        · intro record mem version versionMem pending
          cases mem
          exact ⟨_, rfl, (keeps.trans (keepsPending_versioned lr.body own ready)).hasVersion
            versionMem pending⟩

theorem committedOf_eq_none_of_deleted {record : LeafRecord} (well : record.RowWell)
    (kept : record.releaseLockAble = false) (stable : record.isStable = true)
    (deleted : record.isDelete = true) : record.committedOf = none ∧ record.ended = true := by
  cases record with
  | unlocked body =>
      have flag : body.bDelete = true := deleted
      simp [RecordBody.live, flag, ended, locks]
  | locked body lock =>
      have flag : body.bDelete = true := deleted
      rcases well with reads | ⟨-, present, -⟩
      · have notUpdateable := isUpdateable_eq_false_of_read reads
        rw [committedOf_locked_read notUpdateable]
        simp [RecordBody.live, flag, ended, locks, notUpdateable]
      · rw [present] at flag
        cases flag
  | versioned body lock undoRec =>
      have updateable := isUpdateable_of_write well.1
      have notShare : lock.actType ≠ .readShare := by
        intro share
        rw [share] at updateable
        cases updateable
      have unmarked : lock.recStatus.isMarked = false := by
        simpa [releaseLockAble, recLock, notShare] using kept
      simp [isStable, recLock, updateable, unmarked] at stable

theorem slotKept_ready {record ready : LeafRecord} (denotes : committed = record.committedOf)
    (same : SameRow record ready) (oneKey : ready.OneKey type key)
    (keeps : record.KeepsPending ready) :
    SlotKept type key committed (some record) (some ready) committed := by
  refine ⟨⟨same.well, denotes.trans same.committed.symm⟩, ?_, ?_⟩
  · rintro other mem
    cases mem
    exact oneKey
  · intro old mem version versionMem pending
    cases mem
    exact ⟨ready, rfl, keeps.hasVersion versionMem pending⟩

/-- Saving and splitting keep a prepared record, or leave it out when it is deleted. -/
theorem settled_cases {record : LeafRecord} {kept : Option LeafRecord} {splits : Bool}
    (oneKey : record.OneKey type key)
    (settled : (if splits then record.settleForSplit else record.settleForSave) = some kept) :
    ∃ ready, record.prepare = some ready ∧
      (kept = some ready ∧ ready.OneKey type key ∨
        kept = none ∧ ready.isStable = true ∧ ready.isDelete = true) := by
  cases able : record.releaseLockAble with
  | true =>
      have releases : ∀ {result : Option LeafRecord}, record.releaseKept = some result →
          ∃ ready, record.prepare = some ready ∧
            (result = some ready ∧ ready.OneKey type key ∨
              result = none ∧ ready.isStable = true ∧ ready.isDelete = true) := by
        intro result released
        rcases Option.map_eq_some_iff.mp released with ⟨out, outEq, rfl⟩
        refine ⟨out.record, by rw [prepare, if_pos able, outEq]; rfl, ?_⟩
        rw [← settle_eq_releaseLock able] at outEq
        by_cases deleted : out.result = .deleted
        · rcases deleted_of_settle outEq deleted with ⟨flag, noLock⟩
          rw [if_pos deleted]
          exact Or.inr ⟨rfl, by rw [isStable, noLock], flag⟩
        · rw [if_neg deleted]
          refine Or.inl ⟨rfl, (oneKey_settle oneKey outEq).resolve_right ?_⟩
          exact fun gone => deleted gone.2.2
      cases splits with
      | true =>
          simp only [if_true, settleForSplit, able] at settled
          exact releases settled
      | false =>
          simp only [Bool.false_eq_true, if_false, settleForSave, able, if_true] at settled
          rcases Option.map_eq_some_iff.mp settled with ⟨result, resultEq, rfl⟩
          rcases releases resultEq with ⟨ready, prepared, ⟨rfl, readyKey⟩ | ⟨rfl, stable, flag⟩⟩
          · refine ⟨ready, prepared, ?_⟩
            by_cases gone : ready.isStable = true ∧ ready.isDelete = true
            · exact Or.inr ⟨by simp [gone.1, gone.2], gone⟩
            · exact Or.inl ⟨by simpa [Option.filter] using gone, readyKey⟩
          · exact ⟨ready, prepared, Or.inr ⟨rfl, stable, flag⟩⟩
  | false =>
      refine ⟨record, by rw [prepare, able]; rfl, ?_⟩
      cases splits with
      | true =>
          simp only [if_true, settleForSplit, able, Bool.false_eq_true, if_false,
            Option.some.injEq] at settled
          split at settled
          · next gone =>
              rw [Bool.and_eq_true, Option.isNone_iff_eq_none] at gone
              exact Or.inr ⟨settled.symm, by rw [isStable, gone.1], gone.2⟩
          · exact Or.inl ⟨settled.symm, oneKey⟩
      | false =>
          simp only [Bool.false_eq_true, if_false, settleForSave, able, Option.map_some,
            Option.some.injEq] at settled
          rw [← settled]
          by_cases gone : record.isStable = true ∧ record.isDelete = true
          · exact Or.inr ⟨by simp [gone.1, gone.2], gone⟩
          · exact Or.inl ⟨by simpa [Option.filter] using gone, oneKey⟩

theorem slotKept_settled {record : LeafRecord} {kept : Option LeafRecord} {splits : Bool}
    (inv : RowInv { record := some record, committed := committed })
    (oneKey : record.OneKey type key) (safe : record.SafeRelease)
    (settled : (if splits then record.settleForSplit else record.settleForSave) = some kept) :
    SlotKept type key committed (some record) kept committed := by
  rcases inv with ⟨well, denotes⟩
  rcases settled_cases oneKey settled with
    ⟨ready, prepared, ⟨rfl, readyKey⟩ | ⟨rfl, stable, deleted⟩⟩
  · exact slotKept_ready denotes (sameRow_prepare well safe prepared) readyKey
      (keepsPending_prepare well prepared)
  · have same := sameRow_prepare well safe prepared
    rcases committedOf_eq_none_of_deleted same.well same.kept stable deleted with ⟨gone, isOver⟩
    refine ⟨denotes.trans (same.committed.symm.trans gone), nofun, ?_⟩
    intro old mem version versionMem pending
    cases mem
    have keeps := (keepsPending_prepare well prepared).trans
      (keepsPending_of_ended isOver (unlocked record.body))
    rcases keeps version versionMem pending with ⟨other, otherMem, -⟩
    cases otherMem

theorem hasVersion_mapVersion {record : LeafRecord} {version : RowContent × RecordLock}
    (mem : version ∈ record.versions) (stmt : StatementRef) (status : RecordStatus) (depth : ℕ) :
    (record.mapVersion (submitLock stmt status) depth).HasVersion version := by
  induction record generalizing depth with
  | unlocked body => cases mem
  | locked body lock =>
      rw [versions, List.mem_singleton] at mem
      subst mem
      cases depth with
      | zero => exact ⟨_, List.mem_cons_self, rfl, by simp, by simp⟩
      | succ depth => exact ⟨_, List.mem_cons_self, rfl, rfl, rfl⟩
  | versioned body lock undoRec ih =>
      rcases List.mem_cons.mp mem with rfl | older
      · cases depth with
        | zero => exact ⟨_, List.mem_cons_self, rfl, by simp, by simp⟩
        | succ depth => exact ⟨_, List.mem_cons_self, rfl, rfl, rfl⟩
      · cases depth with
        | zero => exact ⟨version, List.mem_cons_of_mem _ older, rfl, rfl, rfl⟩
        | succ depth =>
            rcases ih older depth with ⟨kept, keptMem, same⟩
            exact ⟨kept, List.mem_cons_of_mem _ keptMem, same⟩

theorem slotKept_rowStep {format : IndexFormat} {old : LeafRecord} {event : RowEvent}
    {row : RowState} (unique : type ≠ .nonUnique)
    (inv : RowInv { record := some old, committed := committed })
    (oneKey : old.OneKey type key)
    (safe : SafeRowEvent { record := some old, committed := committed } event)
    (stays : event.isMark = false → old.insertTakenBack = false)
      (notInsert : event.isInsert = false)
    (step : rowStep format { record := some old, committed := committed } event = some row) :
    SlotKept type key committed (some old) row.record row.committed := by
  have carried : ∀ record, row.record = some record → old.Carries type record →
      (∀ other ∈ row.record, other.OneKey type key) ∧
        ∀ record ∈ some old, ∀ version ∈ record.versions, version.2.isPending = true →
          ∃ record' ∈ row.record, record'.HasVersion version := by
    intro record recordEq carries
    rw [recordEq]
    constructor
    · rintro other mem
      cases mem
      exact carries.oneKey key oneKey
    · intro other mem version versionMem pending
      cases mem
      exact ⟨record, rfl, carries.pending.hasVersion versionMem pending⟩
  have row' := rowInv_rowStep safe inv step
  cases event with
  | insert vctKey vctVal recStamp stmt fresh => cases notInsert
  | write txid request =>
      rcases Option.map_eq_some_iff.mp step with ⟨new, written, rfl⟩
      have both := carried new rfl (carries_writeRow unique inv.1 (stays rfl) written)
      exact ⟨row', both.1, both.2⟩
  | lockRead stmt atype bGapLock lockAddr =>
      rcases Option.ite_none_right_eq_some.mp step with ⟨-, step⟩
      rcases Option.bind_eq_some_iff.mp step with ⟨ready, prepared, rest⟩
      rcases Option.map_eq_some_iff.mp rest with ⟨outcome, answer, rfl⟩
      have both := carried outcome.record rfl
        ((carries_prepare inv.1 (stays rfl) prepared).trans (carries_readListValue answer))
      exact ⟨row', both.1, both.2⟩
  | mark version stmt status =>
      rcases Option.ite_none_right_eq_some.mp step with ⟨-, ⟨⟩⟩
      refine ⟨row', ?_, ?_⟩
      · rintro other mem
        cases mem
        exact oneKey_mapVersion _ version oneKey
      · intro other mem own versionMem _
        cases mem
        exact ⟨_, rfl, hasVersion_mapVersion versionMem stmt status version⟩
  | release =>
      rcases Option.map_eq_some_iff.mp step with ⟨ready, prepared, rfl⟩
      have both := carried ready rfl (carries_prepare inv.1 (stays rfl) prepared)
      exact ⟨row', both.1, both.2⟩

theorem sameVersions_secondaryReadLock {record : LeafRecord} (stmt : StatementRef)
    {actType : ActionType} (lockAddr : ℕ) (reads : actType.isReadLock = true)
    (well : record.RowWell) :
    SameVersions record (record.secondaryReadLock stmt actType lockAddr).2 := by
  cases head : record.recLock with
  | none =>
      have added : SameVersions record (record.addReadLock stmt actType false lockAddr).1 :=
        sameVersions_addReadLock false lockAddr well reads
      simpa only [secondaryReadLock, addReadLock, head] using added
  | some lock =>
      simp only [secondaryReadLock, head]
      split
      · split
        · exact SameVersions.refl well
        · exact sameVersions_mapLock well fun own _ => ⟨rfl, Or.inl rfl⟩
      · split <;> exact SameVersions.refl well

theorem slotKept_secondaryReadLock {record ready : LeafRecord} (stmt : StatementRef)
    {actType : ActionType} (lockAddr : ℕ) (reads : actType.isReadLock = true)
    (inv : RowInv { record := some record, committed := committed })
    (oneKey : record.OneKey type key) (safe : record.SafeRelease)
    (stays : record.insertTakenBack = false) (prepared : record.prepare = some ready) :
    SlotKept type key committed (some record)
      (some (ready.secondaryReadLock stmt actType lockAddr).2) committed := by
  have same := sameRow_prepare inv.1 safe prepared
  have carries : record.Carries type (ready.secondaryReadLock stmt actType lockAddr).2 :=
    (carries_prepare inv.1 stays prepared).trans
      (carries_secondaryReadLock stmt actType lockAddr)
  have versions := sameVersions_secondaryReadLock stmt lockAddr reads same.well
  refine ⟨⟨versions.well, ?_⟩, ?_, ?_⟩
  · exact inv.2.trans (same.committed.symm.trans versions.committed.symm)
  · rintro other mem
    cases mem
    exact carries.oneKey key oneKey
  · intro other mem version versionMem pending
    cases mem
    exact ⟨_, rfl, carries.pending.hasVersion versionMem pending⟩

end Slot

end LeafRecord

open LeafRecord

/-!
## A page and its keys
-/

/-- The arguments of the constructors of a new record. -/
inductive RecordSource where
  | primary (vctKey vctVal : List DataValue)
  | secondary (vctKey : List DataValue) (bysPri : List Byte) (actType : ActionType)

def RecordSource.record (format : IndexFormat) (recStamp : ℕ) (stmt : StatementRef)
    (fresh : NewRecord) : RecordSource → LeafRecord
  | primary vctKey vctVal => newPrimary format vctKey vctVal recStamp (some stmt) fresh
  | secondary vctKey bysPri actType =>
      newSecondary format vctKey bysPri actType recStamp (some stmt) fresh

/-- A page, and the committed content of every key. -/
structure KeyPage where
  page : LeafPage
  committed : List Byte → Option RowContent

/-- What happens to a page: a new record goes through `UpdateAction`, an event meets the record
at a position, a scan of a secondary index locks it, or the loops of `SaveRecords` and
`SplitPage` come to it. -/
inductive KeyEvent where
  | action (source : RecordSource) (recStamp : ℕ) (stmt : StatementRef) (fresh : NewRecord)
  | row (pos : ℕ) (event : RowEvent)
  | secondaryReadLock (pos : ℕ) (stmt : StatementRef) (actType : ActionType) (lockAddr : ℕ)
  | settle (pos : ℕ) (splits : Bool)

namespace KeyPage

/-- The records of the page, in their order. -/
def records (state : KeyPage) : List LeafRecord := state.page.records

/-- One event. The lengths of the page follow a release at once; saving and splitting compute
them anew when their loops are over. -/
def step (format : IndexFormat) (state : KeyPage) : KeyEvent → Option KeyPage
  | .action source recStamp stmt fresh =>
      let lr := source.record format recStamp stmt fresh
      if lr.body.bValid then
        (state.page.updateAction format.indexType lr).map fun (page, _) =>
          { state with page := page }
      else
        none
  | .row pos event =>
      if event.isInsert then
        none
      else
        state.records[pos]?.bind fun old =>
          let key := old.indexKey format.indexType
          let ready := if event.isMark then some old else old.prepare
          ready.bind fun ready =>
            let before := { record := some old, committed := state.committed key }
            (rowStep format before event).bind fun after => after.record.map fun record =>
              let page := state.page.replaceRecord pos old ready
              { page := { page with records := page.records.set pos record }
                committed := Function.update state.committed key after.committed }
  | .secondaryReadLock pos stmt actType lockAddr =>
      if actType.isReadLock then
        state.records[pos]?.bind fun old => old.prepare.map fun ready =>
          let page := state.page.replaceRecord pos old ready
          let record := (ready.secondaryReadLock stmt actType lockAddr).2
          { state with page := { page with records := page.records.set pos record } }
      else
        none
  | .settle pos splits =>
      state.records[pos]?.bind fun old =>
        (if splits then old.settleForSplit else old.settleForSave).map fun
          | none => { state with page := { state.page with records := state.records.eraseIdx pos } }
          | some record =>
              { state with page := { state.page with records := state.records.set pos record } }

/-- The events that stay clear of the slips: a new record meets its key as in `SafeAction`, a
rolled back `DELETE` is released on top of a committed version only, and an insert that has been
taken back is released by `UpdateAction`, `SaveRecords` or `SplitPage`, which drop the record. -/
def SafeEvent (format : IndexFormat) (state : KeyPage) : KeyEvent → Prop
  | .action source recStamp stmt fresh =>
      let lr := source.record format recStamp stmt fresh
      lr.SafeAction (state.records.find? fun old =>
        old.indexKey format.indexType = lr.indexKey format.indexType)
  | .row pos event =>
      ∀ old ∈ state.records[pos]?,
        SafeRowEvent ⟨some old, state.committed (old.indexKey format.indexType)⟩ event ∧
          (event.isMark = false → old.insertTakenBack = false)
  | .secondaryReadLock pos _ _ _ =>
      ∀ old ∈ state.records[pos]?, old.SafeRelease ∧ old.insertTakenBack = false
  | .settle pos _ => ∀ old ∈ state.records[pos]?, old.SafeRelease

/-- The records are in the order of their keys, and each denotes what is committed of its key. -/
structure Inv (type : IndexType) (state : KeyPage) : Prop where
  sorted : (state.records.map (LeafRecord.indexKey type)).Pairwise (· < ·)
  oneKey : ∀ record ∈ state.records, record.OneKey type (record.indexKey type)
  row : ∀ record ∈ state.records,
    RowInv { record := some record, committed := state.committed (record.indexKey type) }
  absent : ∀ key ∉ state.records.map (LeafRecord.indexKey type), state.committed key = none

/-- A page as it is loaded: records without locks, whose content is committed. -/
structure Loaded (type : IndexType) (state : KeyPage) : Prop where
  sorted : (state.records.map (LeafRecord.indexKey type)).Pairwise (· < ·)
  unlocked : ∀ record ∈ state.records, ∃ body, record = .unlocked body ∧
    state.committed (record.indexKey type) = body.live
  absent : ∀ key ∉ state.records.map (LeafRecord.indexKey type), state.committed key = none

/-- No version under a lock that has not been released gets lost. -/
def NoneDropped (type : IndexType) (state state' : KeyPage) : Prop :=
  ∀ record ∈ state.records, ∀ version ∈ record.versions, version.2.isPending = true →
    ∃ record' ∈ state'.records,
      record'.indexKey type = record.indexKey type ∧ record'.HasVersion version

section Inv

variable {type : IndexType} {state : KeyPage} {key : List Byte} {slot : Option LeafRecord}

theorem mem_around {records left right : List LeafRecord}
    (around : LeafPage.Around type key records left slot right) {record : LeafRecord} :
    record ∈ records ↔ record ∈ left ∨ record ∈ slot ∨ record ∈ right := by
  rw [around.parts, List.mem_append, List.mem_append, Option.mem_toList, or_assoc]
  exact Iff.rfl

theorem find_around {records left right : List LeafRecord}
    (around : LeafPage.Around type key records left slot right)
    (same : ∀ record ∈ slot, record.indexKey type = key) :
    records.find? (fun old => old.indexKey type = key) = slot := by
  have noLeft : left.find? (fun old => decide (old.indexKey type = key)) = none := by
    rw [List.find?_eq_none]
    intro other mem found
    exact absurd (of_decide_eq_true found) (around.before other mem).ne
  have noRight : right.find? (fun old => decide (old.indexKey type = key)) = none := by
    rw [List.find?_eq_none]
    intro other mem found
    exact absurd (of_decide_eq_true found) (around.behind other mem).ne'
  rw [around.parts, List.find?_append, List.find?_append, noLeft, noRight]
  cases slot with
  | none => rfl
  | some record => simp [same record rfl]

theorem Inv.replaced {page : LeafPage} {slot' : Option LeafRecord}
    {committed' : Option RowContent} (inv : state.Inv type)
    (replaces : LeafPage.Replaces type key state.records page.records slot slot')
    (kept : SlotKept type key (state.committed key) slot slot' committed') :
    (KeyPage.mk page (Function.update state.committed key committed')).Inv type ∧
      state.NoneDropped type
        (KeyPage.mk page (Function.update state.committed key committed')) := by
  rcases replaces with ⟨same, left, right, before, after⟩
  have sameAfter : ∀ record ∈ slot', record.indexKey type = key :=
    fun record mem => (kept.oneKey record mem).indexKey
  have other : ∀ {record : LeafRecord}, record ∈ left ∨ record ∈ right →
      record.indexKey type ≠ key := by
    rintro record (mem | mem)
    · exact (before.before record mem).ne
    · exact (before.behind record mem).ne'
  have atKey : ∀ {other : List Byte}, other ≠ key →
      Function.update state.committed key committed' other = state.committed other :=
    fun different => Function.update_of_ne different committed' state.committed
  refine ⟨⟨?_, ?_, ?_, ?_⟩, ?_⟩
  · have ordered := inv.sorted
    rw [before.parts, List.map_append, List.map_append, List.append_assoc, List.pairwise_append,
      List.pairwise_append] at ordered
    rcases ordered with ⟨leftOrdered, ⟨-, rightOrdered, -⟩, -⟩
    have slotOrdered : (slot'.toList.map (LeafRecord.indexKey type)).Pairwise (· < ·) := by
      cases slot' <;> simp
    have slotKey : ∀ other ∈ slot'.toList.map (LeafRecord.indexKey type), other = key := by
      intro other mem
      rcases List.mem_map.mp mem with ⟨record, recordMem, rfl⟩
      exact sameAfter record (Option.mem_toList.mp recordMem)
    rw [records, after.parts, List.map_append, List.map_append, List.append_assoc,
      List.pairwise_append, List.pairwise_append]
    refine ⟨leftOrdered, ⟨slotOrdered, rightOrdered, ?_⟩, ?_⟩
    · intro slotOther slotMem rightOther rightMem
      rcases List.mem_map.mp rightMem with ⟨record, recordMem, rfl⟩
      rw [slotKey slotOther slotMem]
      exact after.behind record recordMem
    · intro leftOther leftMem rest restMem
      rcases List.mem_map.mp leftMem with ⟨record, recordMem, rfl⟩
      have less := after.before record recordMem
      rcases List.mem_append.mp restMem with slotMem | rightMem
      · rw [slotKey rest slotMem]
        exact less
      · rcases List.mem_map.mp rightMem with ⟨behind, behindMem, rfl⟩
        exact lt_trans less (after.behind behind behindMem)
  · intro record mem
    rcases (mem_around after).mp mem with inLeft | inSlot | inRight
    · exact inv.oneKey record ((mem_around before).mpr (Or.inl inLeft))
    · rw [sameAfter record inSlot]
      exact kept.oneKey record inSlot
    · exact inv.oneKey record ((mem_around before).mpr (Or.inr (Or.inr inRight)))
  · intro record mem
    rcases (mem_around after).mp mem with inLeft | inSlot | inRight
    · simp only [atKey (other (Or.inl inLeft))]
      exact inv.row record ((mem_around before).mpr (Or.inl inLeft))
    · cases inSlot
      simp only [sameAfter record rfl, Function.update_self]
      exact kept.row
    · simp only [atKey (other (Or.inr inRight))]
      exact inv.row record ((mem_around before).mpr (Or.inr (Or.inr inRight)))
  · intro absentKey absent
    by_cases atSlot : absentKey = key
    · subst atSlot
      simp only [Function.update_self]
      have row := kept.row
      cases slot' with
      | none => exact row
      | some record =>
          have mem : record ∈ page.records := (mem_around after).mpr (Or.inr (Or.inl rfl))
          rw [← sameAfter record rfl] at absent
          exact absurd (List.mem_map_of_mem mem) absent
    · simp only [atKey atSlot]
      apply inv.absent
      intro present
      rcases List.mem_map.mp present with ⟨record, recordMem, rfl⟩
      apply absent
      rcases (mem_around before).mp recordMem with inLeft | inSlot | inRight
      · exact List.mem_map_of_mem ((mem_around after).mpr (Or.inl inLeft))
      · exact absurd (same record inSlot) atSlot
      · exact List.mem_map_of_mem ((mem_around after).mpr (Or.inr (Or.inr inRight)))
  · intro record mem version versionMem pending
    have itself : record.HasVersion version := ⟨version, versionMem, rfl, rfl, rfl⟩
    rcases (mem_around before).mp mem with inLeft | inSlot | inRight
    · exact ⟨record, (mem_around after).mpr (Or.inl inLeft), rfl, itself⟩
    · rcases kept.kept record inSlot version versionMem pending with ⟨record', inAfter, has⟩
      exact ⟨record', (mem_around after).mpr (Or.inr (Or.inl inAfter)),
        (sameAfter record' inAfter).trans (same record inSlot).symm, has⟩
    · exact ⟨record, (mem_around after).mpr (Or.inr (Or.inr inRight)), rfl, itself⟩

theorem Inv.replaced_page {page : LeafPage} {slot' : Option LeafRecord} (inv : state.Inv type)
    (replaces : LeafPage.Replaces type key state.records page.records slot slot')
    (kept : SlotKept type key (state.committed key) slot slot' (state.committed key)) :
    { state with page := page }.Inv type ∧ state.NoneDropped type { state with page := page } := by
  have after := inv.replaced replaces kept
  rwa [Function.update_eq_self] at after

theorem Inv.atKey {left right : List LeafRecord} (inv : state.Inv type)
    (around : LeafPage.Around type key state.records left slot right)
    (same : ∀ record ∈ slot, record.indexKey type = key) :
    RowInv { record := slot, committed := state.committed key } ∧
      ∀ record ∈ slot, record.OneKey type key := by
  cases slot with
  | none =>
      refine ⟨inv.absent key ?_, nofun⟩
      intro present
      rcases List.mem_map.mp present with ⟨record, mem, keyEq⟩
      rcases (mem_around around).mp mem with inLeft | inSlot | inRight
      · exact absurd keyEq (around.before record inLeft).ne
      · cases inSlot
      · exact absurd keyEq (around.behind record inRight).ne'
  | some record =>
      have mem : record ∈ state.records := (mem_around around).mpr (Or.inr (Or.inl rfl))
      have row := inv.row record mem
      have oneKey := inv.oneKey record mem
      rw [same record rfl] at row oneKey
      refine ⟨row, ?_⟩
      intro other isRecord
      cases isRecord
      exact oneKey

theorem replaces_at {pos : ℕ} {old : LeafRecord} {slot' : Option LeafRecord}
    {records' : List LeafRecord} (inv : state.Inv type) (atPos : state.records[pos]? = some old)
    (parts : records' =
      state.records.take pos ++ slot'.toList ++ state.records.drop (pos + 1)) :
    LeafPage.Replaces type (old.indexKey type) state.records records' (some old) slot' := by
  have around := LeafPage.around_of_found inv.sorted atPos rfl
  refine ⟨?_, _, _, around, ⟨parts, around.before, around.behind⟩⟩
  intro record mem
  cases mem
  rfl

theorem set_parts {records : List LeafRecord} {pos : ℕ} {old : LeafRecord} (record : LeafRecord)
    (atPos : records[pos]? = some old) :
    records.set pos record =
      records.take pos ++ (some record).toList ++ records.drop (pos + 1) := by
  rcases List.getElem?_eq_some_iff.mp atPos with ⟨inside, -⟩
  rw [List.set_eq_take_append_cons_drop, if_pos inside]
  simp

theorem isChange_record {format : IndexFormat} {source : RecordSource} {recStamp : ℕ}
    {stmt : StatementRef} {fresh : NewRecord}
    (valid : (source.record format recStamp stmt fresh).body.bValid = true)
    (writes : (source.record format recStamp stmt fresh).getAction = .insert ∨
      (source.record format recStamp stmt fresh).getAction = .update ∨
      (source.record format recStamp stmt fresh).getAction = .delete) :
    ∃ lock, (source.record format recStamp stmt fresh).IsChange lock := by
  cases source with
  | primary vctKey vctVal =>
      simp only [RecordSource.record, newPrimary] at valid writes ⊢
      split at valid
      · cases valid
      · next inRange =>
          rw [if_neg inRange] at writes ⊢
          exact ⟨_, rfl, writes, rfl, rfl⟩
  | secondary vctKey bysPri actType =>
      simp only [RecordSource.record, newSecondary] at valid writes ⊢
      split at valid
      · cases valid
      · next inRange =>
          rw [if_neg inRange] at writes ⊢
          exact ⟨_, rfl, writes, rfl, rfl⟩

theorem action_of_updateSlot {lr : LeafRecord} {slot' : Option LeafRecord}
    (updated : LeafPage.updateSlot lr slot = some slot') :
    lr.getAction = .insert ∨ lr.getAction = .update ∨ lr.getAction = .delete := by
  rcases Option.bind_eq_some_iff.mp updated with ⟨room, -, rest⟩
  cases action : lr.getAction <;> simp [action] at rest ⊢

theorem Inv.step {format : IndexFormat} {state' : KeyPage} {event : KeyEvent}
    (unique : format.indexType ≠ .nonUnique) (inv : state.Inv format.indexType)
    (safe : state.SafeEvent format event) (step : state.step format event = some state') :
    state'.Inv format.indexType ∧ state.NoneDropped format.indexType state' := by
  cases event with
  | action source recStamp stmt fresh =>
      rcases Option.ite_none_right_eq_some.mp step with ⟨valid, step⟩
      rcases Option.map_eq_some_iff.mp step with ⟨⟨page, result⟩, updated, rfl⟩
      rcases LeafPage.updateAction_spec inv.sorted updated with
        ⟨slot, slot', slotUpdated, replaces⟩
      rcases isChange_record valid (action_of_updateSlot slotUpdated) with ⟨lock, change⟩
      rcases replaces.2 with ⟨left, right, around, -⟩
      have found := find_around around replaces.1
      rcases inv.atKey around replaces.1 with ⟨row, oneKey⟩
      have slotSafe : (source.record format recStamp stmt fresh).SafeAction slot := by
        rw [← found]
        exact safe
      exact inv.replaced_page replaces
        (slotKept_updateSlot change row oneKey slotSafe slotUpdated)
  | row pos event =>
      rcases Option.ite_none_left_eq_some.mp step with ⟨notInsert, step⟩
      rcases Option.bind_eq_some_iff.mp step with ⟨old, atPos, step⟩
      rcases Option.bind_eq_some_iff.mp step with ⟨ready, readyEq, step⟩
      rcases Option.bind_eq_some_iff.mp step with ⟨after, rowEq, step⟩
      rcases Option.map_eq_some_iff.mp step with ⟨record, recordEq, rfl⟩
      have mem := List.mem_of_getElem? atPos
      rcases safe old atPos with ⟨safeRow, stays⟩
      have kept := slotKept_rowStep unique (inv.row old mem) (inv.oneKey old mem) safeRow stays
        (by simpa using notInsert) rowEq
      rw [recordEq] at kept
      refine inv.replaced (replaces_at inv atPos ?_) kept
      rw [← set_parts record atPos]
      exact List.set_set ready
  | secondaryReadLock pos stmt actType lockAddr =>
      rcases Option.ite_none_right_eq_some.mp step with ⟨reads, step⟩
      rcases Option.bind_eq_some_iff.mp step with ⟨old, atPos, step⟩
      rcases Option.map_eq_some_iff.mp step with ⟨ready, prepared, rfl⟩
      have mem := List.mem_of_getElem? atPos
      rcases safe old atPos with ⟨safeRelease, stays⟩
      have kept := slotKept_secondaryReadLock stmt lockAddr reads (inv.row old mem)
        (inv.oneKey old mem) safeRelease stays prepared
      refine inv.replaced_page (replaces_at inv atPos ?_) kept
      rw [← set_parts _ atPos]
      exact List.set_set ready
  | settle pos splits =>
      rcases Option.bind_eq_some_iff.mp step with ⟨old, atPos, step⟩
      rcases Option.map_eq_some_iff.mp step with ⟨result, settled, resultEq⟩
      have mem := List.mem_of_getElem? atPos
      have kept := slotKept_settled (inv.row old mem) (inv.oneKey old mem) (safe old atPos) settled
      cases result with
      | none =>
          cases resultEq
          refine inv.replaced_page (replaces_at inv atPos ?_) kept
          simp [List.eraseIdx_eq_take_drop_succ]
      | some record =>
          cases resultEq
          exact inv.replaced_page (replaces_at inv atPos (set_parts record atPos)) kept

theorem Loaded.inv (loaded : state.Loaded type) : state.Inv type where
  sorted := loaded.sorted
  oneKey := by
    intro record mem
    rcases loaded.unlocked record mem with ⟨body, rfl, -⟩
    rfl
  row := by
    intro record mem
    rcases loaded.unlocked record mem with ⟨body, rfl, committed⟩
    exact ⟨trivial, committed.trans committedOf_unlocked.symm⟩
  absent := loaded.absent

end Inv

/-!
## What every run keeps
-/

/-- At most one record of a key denotes a committed row. -/
def AtMostOneLive (type : IndexType) (state : KeyPage) : Prop :=
  ∀ key, state.records.countP
    (fun record => record.indexKey type = key ∧ record.committedOf.isSome = true) ≤ 1

/-- Releasing a `DELETE` that has been rolled back brings the row back that it deleted, which is
what is committed of the key. -/
def RestoresDeleted (type : IndexType) (state : KeyPage) : Prop :=
  ∀ body lock undoRec, .versioned body lock undoRec ∈ state.records →
    lock.actType = .delete → lock.recStatus = .rollbacked →
      (LeafRecord.versioned body lock undoRec).SafeRelease →
        ∃ ready, (LeafRecord.versioned body lock undoRec).prepare = some ready ∧
          ready.base = some undoRec.body.content ∧
          state.committed (ready.indexKey type) = some undoRec.body.content

/-- An insert of a key whose record is being deleted leaves the page as it is. -/
def RefusesInsert (format : IndexFormat) (state state' : KeyPage) : KeyEvent → Prop
  | .action source recStamp stmt fresh =>
      let lr := source.record format recStamp stmt fresh
      ∀ old ∈ state.records, old.indexKey format.indexType = lr.indexKey format.indexType →
        lr.getAction = .insert →
          (∃ version ∈ old.versions, version.2.isPending = true ∧ version.2.actType = .delete) →
            state'.records = state.records
  | _ => True

section Runs

variable {type : IndexType} {format : IndexFormat} {start state state' : KeyPage}

theorem Inv.atMostOneLive (inv : state.Inv type) : state.AtMostOneLive type := by
  intro key
  have nodup : (state.records.map (LeafRecord.indexKey type)).Nodup := inv.sorted.imp ne_of_lt
  have once := List.nodup_iff_count.mp nodup key
  refine le_trans ?_ once
  rw [List.count, List.countP_map]
  apply List.countP_mono_left
  intro record _ both
  have sameKey := (of_decide_eq_true both).1
  simp [sameKey]

theorem committedOf_of_commited {record : LeafRecord} {lock : RecordLock} (well : record.RowWell)
    (present : record.isDelete = false) (head : record.recLock = some lock)
    (commited : lock.recStatus = .commited) (updateable : lock.actType.isUpdateable = true) :
    record.committedOf = some record.body.content := by
  cases record with
  | unlocked body => cases head
  | locked body own =>
      cases head
      rcases well with reads | ⟨insert, -, -⟩
      · rw [isUpdateable_eq_false_of_read reads] at updateable
        cases updateable
      · rw [committedOf_locked_insert insert, if_pos commited]
        rfl
  | versioned body own undoRec =>
      cases head
      rcases well with ⟨-, flag, -, order, -, -⟩
      have notDelete : lock.actType ≠ .delete := by
        intro delete
        have flagEq : body.bDelete = false := present
        rw [flagEq, delete] at flag
        cases flag
      rw [committedOf_versioned_commited commited (order commited), if_neg notDelete]
      rfl

theorem Inv.restoresDeleted (inv : state.Inv type) : state.RestoresDeleted type := by
  intro body lock undoRec mem delete rollbacked safe
  rcases inv.row _ mem with ⟨well, denotes⟩
  rcases exists_prepare (.versioned body lock undoRec) with ⟨ready, prepared⟩
  have same := sameRow_prepare well safe prepared
  rcases safe rollbacked delete with ⟨older, head, commited, updateable⟩
  have restored : (LeafRecord.versioned body lock undoRec).committedOf =
      some undoRec.body.content := by
    rw [committedOf_versioned_rollbacked rollbacked]
    exact committedOf_of_commited well.2.2.2.2.2 well.2.2.2.2.1 head commited updateable
  have stays : (LeafRecord.versioned body lock undoRec).insertTakenBack = false := by
    have notBack : undoRec.insertTakenBack = false := by
      cases undoRec with
      | unlocked body => rfl
      | locked body lock =>
          cases head
          simp [insertTakenBack, commited]
      | versioned body lock undoRec =>
          cases head
          simp [insertTakenBack, commited]
    simp [insertTakenBack, notBack]
  have keyEq : ready.indexKey type = (LeafRecord.versioned body lock undoRec).indexKey type :=
    ((carries_prepare well stays prepared).oneKey _ (inv.oneKey _ mem)).indexKey
  refine ⟨ready, prepared, ?_, ?_⟩
  · rw [← committedOf_eq_base_of_kept same.well same.kept, same.committed, restored]
  · rw [keyEq]
    exact denotes.trans restored

theorem versioned_of_pendingDelete {record : LeafRecord} {version : RowContent × RecordLock}
    (well : record.RowWell) (mem : version ∈ record.versions)
    (delete : version.2.actType = .delete) :
    record.isDelete = true ∧ record.recLock = some version.2 := by
  induction record with
  | unlocked body => cases mem
  | locked body lock =>
      rw [versions, List.mem_singleton] at mem
      subst mem
      rcases well with reads | ⟨insert, -, -⟩
      · have deleteEq : lock.actType = .delete := delete
        rw [deleteEq] at reads
        cases reads
      · have deleteEq : lock.actType = .delete := delete
        rw [deleteEq] at insert
        cases insert
  | versioned body lock undoRec ih =>
      rcases well with ⟨-, flag, -, -, olderPresent, olderWell⟩
      rcases List.mem_cons.mp mem with rfl | older
      · exact ⟨flag.trans (decide_eq_true delete), rfl⟩
      · rw [(ih olderWell older).1] at olderPresent
        cases olderPresent

theorem prepare_of_pending {record : LeafRecord} {lock : RecordLock}
    (head : record.recLock = some lock) (pending : lock.isPending = true) :
    record.prepare = some record := by
  rw [RecordLock.isPending, Bool.and_eq_true, Bool.not_eq_true'] at pending
  have notShare : lock.actType ≠ .readShare := by
    intro share
    rw [share] at pending
    cases pending.1
  have kept : record.releaseLockAble = false := by
    rw [releaseLockAble, head]
    simp [notShare, pending.2]
  rw [prepare, kept]
  rfl

theorem Inv.refusesInsert {event : KeyEvent} (inv : state.Inv format.indexType)
    (safe : state.SafeEvent format event) : state.RefusesInsert format state' event := by
  cases event with
  | action source recStamp stmt fresh =>
      rintro old mem sameKey insert ⟨version, versionMem, pending, delete⟩
      rcases List.getElem?_of_mem mem with ⟨pos, atPos⟩
      have around := LeafPage.around_of_found inv.sorted atPos sameKey
      have found := find_around around (by
        intro record isOld
        cases isOld
        exact sameKey)
      rcases safe with ⟨-, free⟩
      rw [records, found, if_pos insert] at free
      rcases versioned_of_pendingDelete (inv.row old mem).1 versionMem delete with ⟨flag, head⟩
      have noLock := free old rfl old (prepare_of_pending head pending) flag
      rw [head] at noLock
      cases noLock
  | row pos event => trivial
  | secondaryReadLock pos stmt actType lockAddr => trivial
  | settle pos splits => trivial

theorem Inv.run (unique : format.indexType ≠ .nonUnique) (loaded : start.Loaded format.indexType)
    (run : Reaches (KeyPage.step format) (KeyPage.SafeEvent format) start state) :
    state.Inv format.indexType :=
  run.preserves loaded.inv fun _ _ _ safe inv step => (inv.step unique safe step).1

/-- In every run that stays clear of the slips, no version is dropped before its lock is
released, and every key has at most one committed row, which comes back when a delete is rolled
back. -/
theorem noVersion_dropped (unique : format.indexType ≠ .nonUnique)
    (loaded : start.Loaded format.indexType)
    (run : Reaches (KeyPage.step format) (KeyPage.SafeEvent format) start state) :
    state.AtMostOneLive format.indexType ∧ state.RestoresDeleted format.indexType ∧
      ∀ event state', state.SafeEvent format event → state.step format event = some state' →
        state.NoneDropped format.indexType state' ∧ state.RefusesInsert format state' event := by
  have inv := Inv.run unique loaded run
  refine ⟨inv.atMostOneLive, inv.restoresDeleted, ?_⟩
  intro event state' safe step
  exact ⟨(inv.step unique safe step).2, inv.refusesInsert safe⟩

end Runs

def empty : KeyPage where
  page := { parentPageId := none }
  committed _ := none

def after (events : List KeyEvent) : KeyPage :=
  (exec (step sampleFormat) events empty).getD empty

/-- Transaction `1` inserts the key `1` and commits, transaction `2` deletes it. -/
def deleting : List KeyEvent :=
  [.action (.primary [sampleValue 1] [sampleValue 5]) 1 ⟨1, 1⟩ ⟨1, 2, 3, crc32⟩,
    .row 0 (.mark 0 ⟨1, 1⟩ .commited),
    .row 0 (.write 2 { sampleRequest .delete with stmtId := 2 })]

/-- Transaction `3` inserts the key `1`. -/
def inserting : KeyEvent :=
  .action (.primary [sampleValue 1] [sampleValue 7]) 3 ⟨3, 3⟩ ⟨21, 22, 23, crc32⟩

theorem loaded_empty : empty.Loaded .primary :=
  ⟨List.Pairwise.nil, nofun, fun _ _ => rfl⟩

theorem exec_after (events : List KeyEvent)
    (runs : (exec (step sampleFormat) events empty).isSome = true) :
    exec (step sampleFormat) events empty = some (after events) := by
  rcases Option.isSome_iff_exists.mp runs with ⟨state, stateEq⟩
  rw [after, stateEq]
  rfl

theorem noVersion_dropped_inserted :
    (after (deleting.take 1)).AtMostOneLive .primary ∧
      (after (deleting.take 1)).RestoresDeleted .primary ∧
        ∀ event state', (after (deleting.take 1)).SafeEvent sampleFormat event →
          (after (deleting.take 1)).step sampleFormat event = some state' →
            (after (deleting.take 1)).NoneDropped .primary state' ∧
              (after (deleting.take 1)).RefusesInsert sampleFormat state' event := by
  have stepEq := exec_after (deleting.take 1) (by decide +kernel)
  rcases Option.bind_eq_some_iff.mp stepEq with ⟨state, first, last⟩
  cases last
  refine noVersion_dropped (by decide) loaded_empty ((Reaches.refl empty).tail _ ?_ first)
  refine ⟨nofun, ?_⟩
  rw [if_pos (by decide +kernel)]
  exact nofun

/-- An insert over a delete under way drops the version under the lock of the delete. -/
theorem not_noVersion_dropped :
    ¬∀ state event state', Reaches (step sampleFormat) anyInput empty state →
      state.step sampleFormat event = some state' → state.NoneDropped .primary state' := by
  intro noneDropped
  have run : Reaches (step sampleFormat) anyInput empty (after deleting) :=
    reaches_of_exec deleting (exec_after deleting (by decide +kernel))
  have pendingDelete : (after deleting).records.any (fun record => record.versions.any
      fun version => version.2.isPending && version.2.actType = .delete) = true := by
    decide +kernel
  have onlyInserts : ((after deleting).step sampleFormat inserting).map (fun state =>
      state.records.all fun record => record.versions.all fun version =>
        decide (version.2.actType = .insert)) = some true := by
    decide +kernel
  generalize after deleting = state at run pendingDelete onlyInserts
  rcases Option.map_eq_some_iff.mp onlyInserts with ⟨state', step, inserts⟩
  simp only [List.any_eq_true, Bool.and_eq_true, decide_eq_true_eq] at pendingDelete
  rcases pendingDelete with ⟨record, mem, version, versionMem, pending, delete⟩
  rcases noneDropped state inserting state' run step record mem version versionMem pending with
    ⟨record', mem', -, kept, keptMem, -, -, action⟩
  simp only [List.all_eq_true, decide_eq_true_eq] at inserts
  rw [inserts record' mem' kept keptMem, delete] at action
  cases action

end KeyPage

end RapidDb
