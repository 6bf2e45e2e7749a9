import RapidDb.Core.PageWrite
import RapidDb.Library.Holders

/-!
# Written pages carry their checksum

As long as a page is handed over only when its last write has completed, at most one write of it
goes on, and its status tells whether. A save therefore never changes a buffer that is being
written, and a buffer has its checksum unless its page is in a split that ends with a save.
-/

namespace RapidDb

open Transition

namespace PageWrite

section Checksum

variable {crc32 : List Byte → ℕ} {maxDataLength : ℕ} {writer writer' : PageWriter} {p : ℕ}
  {page page' : IndexPage}
  {writes : List Write}

/-- A save of the page would not be refused. -/
structure Fits (maxDataLength : ℕ) (page : IndexPage) : Prop where
  status : page.pageStatus = .valid
  committed : page.committedDataLength ≤ maxDataLength
  records : page.isLeaf = true → page.records.length ≤ maxDataLength

structure PageSound (crc32 : List Byte → ℕ) (maxDataLength : ℕ) (writes : List Write) (p : ℕ)
    (page : IndexPage) :
    Prop where
  status : page.pageStatus = .valid ∨ page.pageStatus = .writing
  /-- At most one write of the page goes on. -/
  once : (writes.map Write.page).count p = if page.pageStatus = .writing then 1 else 0
  inFlight : ∀ write ∈ writes, write.page = p → page.bysPage = write.handed ∧
    page.bysPage.Sealed crc32 ∧ ∀ buffer, write.buffer = some buffer → buffer = page.buffer
  sealed : page.bNeedDisk = true →
    page.bysPage.Sealed crc32 ∨ page.stage = .splitting ∧ Fits maxDataLength page
  unstable : page.stable = false → page.bDirty = true ∧ page.bRecordUpdated = true
  recorded : page.bRecordUpdated = false → page.records = page.bysPage.records
  clean : page.bDirty = false → page.bRecordUpdated = false ∧ page.pointers = page.bysPage.pointers
  queued : page.bDirty = true → page.bWriteQueue = true
  splitting : page.stage = .splitting → page.bDirty = true
  settling : ∀ move, page.stage = .settling move → page.bWriteQueue = true ∧
    (move = true → page.bDirty = false)
  again : ∀ bytes, page.written = some bytes → bytes = page.content ∨
    page.bWriteQueue = true ∧ (page.bDirty = true ∨ page.bNeedDisk = true)

structure Sound (crc32 : List Byte → ℕ) (maxDataLength : ℕ) (writer : PageWriter) : Prop where
  pages : ∀ p page, writer.pages[p]? = some page →
    PageSound crc32 maxDataLength writer.writes p page
  inside : ∀ write ∈ writer.writes, write.page < writer.pages.length

theorem PageSound.idle (sound : PageSound crc32 maxDataLength writes p page)
    (valid : page.pageStatus = .valid) : ∀ write ∈ writes, write.page ≠ p := by
  intro write mem same
  have once := sound.once
  rw [valid, if_neg (by decide), List.count_eq_zero] at once
  exact once (List.mem_map.mpr ⟨write, mem, same⟩)

theorem Sound.setPage (sound : Sound crc32 maxDataLength writer)
    (pageSound : PageSound crc32 maxDataLength writer.writes p page') (buffers : ℕ) :
    Sound crc32 maxDataLength { writer.setPage p page' with buffers := buffers } := by
  refine ⟨fun q other found => ?_, fun write mem => ?_⟩
  · by_cases same : p = q
    · subst same
      rcases List.getElem?_eq_some_iff.mp found with ⟨inside, otherEq⟩
      have otherEq' : other = page' := by
        rw [← otherEq]
        exact List.getElem_set_self inside
      rw [otherEq']
      exact pageSound
    · have found' : (writer.pages.set p page')[q]? = some other := found
      rw [List.getElem?_set_ne same] at found'
      exact sound.pages q other found'
  · have inside := sound.inside write mem
    simpa [PageWriter.setPage] using inside

/-! ## Saving -/

/-- A save is refused and leaves everything but the length, or it puts what the page is to have into
its buffer. -/
theorem saveRecords_spec (sound : PageSound crc32 maxDataLength writes p page) (buffer : ℕ) :
    (¬Fits maxDataLength page ∧ ∃ committedDataLength, page.saveRecords crc32 maxDataLength buffer =
      (false, { page with committedDataLength := committedDataLength })) ∨
    page.pageStatus = .valid ∧ ∃ bysPage buffer' committedDataLength,
      page.saveRecords crc32 maxDataLength buffer = (page.stable, { page with
        bysPage := bysPage
        buffer := buffer'
        committedDataLength := committedDataLength
        bRecordUpdated := !page.stable
        bDirty := !page.stable
        bNeedDisk := true }) ∧
      bysPage.Sealed crc32 ∧ bysPage.pointers = page.pointers ∧ bysPage.records = page.records := by
  unfold IndexPage.saveRecords
  by_cases refused : page.pageStatus ≠ .valid ∨ maxDataLength < page.committedDataLength
  · left
    rw [if_pos refused]
    refine ⟨fun fits => ?_, page.committedDataLength, rfl⟩
    rcases refused with notValid | long
    · exact notValid fits.status
    · exact absurd fits.committed (Nat.not_le.mpr long)
  · rw [if_neg refused]
    rw [not_or, not_not] at refused
    cases updated : page.bRecordUpdated with
    | false =>
        right
        have stable : page.stable = true := by
          by_contra unstable
          rw [Bool.not_eq_true] at unstable
          have both := sound.unstable unstable
          rw [updated] at both
          cases both.2
        refine ⟨refused.1, (page.sealBuffer crc32).bysPage, page.buffer,
          page.committedDataLength, ?_, rfl, rfl, (sound.recorded updated).symm⟩
        simp [IndexPage.sealBuffer, stable, updated]
    | true =>
        rw [if_neg (by decide)]
        by_cases long : page.isLeaf = true ∧ maxDataLength < page.records.length
        · left
          rw [if_pos long]
          refine ⟨fun fits => ?_, page.records.length, rfl⟩
          exact absurd (fits.records long.1) (Nat.not_le.mpr long.2)
        · right
          rw [if_neg long]
          exact ⟨refused.1, _, _, _, rfl, rfl, rfl, rfl⟩

theorem PageSound.saved (sound : PageSound crc32 maxDataLength writes p page)
    (valid : page.pageStatus = .valid) {bysPage : PageBuffer} {buffer committedDataLength : ℕ}
    {bDirty : Bool} {stage : PageStage} (isSealed : bysPage.Sealed crc32)
    (pointers : bysPage.pointers = page.pointers) (records : bysPage.records = page.records)
    (queued : page.bWriteQueue = true) (dirty : bDirty = false → page.stable = true)
    (notSplitting : stage ≠ .splitting)
    (settling : ∀ move, stage = .settling move → move = true → bDirty = false) :
    PageSound crc32 maxDataLength writes p { page with
      bysPage := bysPage
      buffer := buffer
      committedDataLength := committedDataLength
      bRecordUpdated := !page.stable
      bDirty := bDirty
      bNeedDisk := true
      stage := stage } := by
  refine ⟨sound.status, sound.once, fun write mem same => ?_, fun _ => Or.inl isSealed,
    fun unstable => ?_, fun _ => records.symm, fun clean => ?_, fun _ => queued,
    fun same => absurd same notSplitting, fun move same => ⟨queued, settling move same⟩,
    fun bytes same => Or.inr ⟨queued, Or.inr rfl⟩⟩
  · exact absurd same (sound.idle valid write mem)
  · have unstable' : page.stable = false := unstable
    refine ⟨?_, by simp [unstable']⟩
    cases kind : bDirty with
    | true => rfl
    | false =>
        rw [dirty kind] at unstable'
        cases unstable'
  · have stable := dirty clean
    exact ⟨by simp [stable], pointers.symm⟩

theorem PageSound.refused (sound : PageSound crc32 maxDataLength writes p page)
    (refused : ¬Fits maxDataLength page) (committedDataLength : ℕ) {stage : PageStage}
    (queued : page.bWriteQueue = true) (notSplitting : stage ≠ .splitting)
    (settling : ∀ move, stage = .settling move → move = true → page.bDirty = false) :
    PageSound crc32 maxDataLength writes p
      { page with committedDataLength := committedDataLength, stage := stage } := by
  refine { sound with
    sealed := fun needDisk => ?_, splitting := fun same => absurd same notSplitting,
    settling := fun move same => ⟨queued, settling move same⟩ }
  rcases sound.sealed needDisk with isSealed | ⟨-, fits⟩
  · exact Or.inl isSealed
  · exact absurd fits refused

section

variable (sound : Sound crc32 maxDataLength writer) (found : writer.pages[p]? = some page)

include sound found

theorem Sound.save (step : pageStep crc32 maxDataLength writer p page (.save p) = some writer') :
    Sound crc32 maxDataLength writer' := by
  have pageSound := sound.pages p page found
  rcases Option.ite_none_right_eq_some.mp step with ⟨turn, step⟩
  split at step
  · rename_i dirty
    cases step
    apply sound.setPage
    rcases saveRecords_spec pageSound writer.buffers with
      ⟨refused, committedDataLength, saved⟩ |
      ⟨valid, bysPage, buffer, committedDataLength, saved, isSealed, pointers, records⟩
    · rw [saved]
      apply pageSound.refused refused committedDataLength turn.1 (by simp)
      rintro move same rfl
      cases same
    · rw [saved]
      apply pageSound.saved valid isSealed pointers records turn.1 (by simp) (by simp)
      rintro move same rfl
      simpa using same
  · rename_i notDirty
    rw [Bool.not_eq_true] at notDirty
    cases step
    apply sound.setPage
    refine { pageSound with
      sealed := fun needDisk => ?_, splitting := by simp,
      settling := fun _ _ => ⟨turn.1, fun _ => notDirty⟩ }
    rcases pageSound.sealed needDisk with isSealed | ⟨splitting, -⟩
    · exact Or.inl isSealed
    · rw [turn.2] at splitting
      cases splitting

theorem Sound.endSplit
    (step : pageStep crc32 maxDataLength writer p page (.endSplit p) = some writer') :
    Sound crc32 maxDataLength writer' := by
  have pageSound := sound.pages p page found
  rcases Option.ite_none_right_eq_some.mp step with ⟨splitting, ⟨⟩⟩
  apply sound.setPage
  have dirty := pageSound.splitting splitting
  have queued := pageSound.queued dirty
  rcases saveRecords_spec pageSound writer.buffers with
    ⟨refused, committedDataLength, saved⟩ |
    ⟨valid, bysPage, buffer, committedDataLength, saved, isSealed, pointers, records⟩
  · rw [saved]
    have sound' := pageSound.refused refused committedDataLength queued
      (by simp : PageStage.idle ≠ .splitting) (by simp)
    simpa [dirty] using sound'
  · rw [saved]
    apply pageSound.saved valid isSealed pointers records queued _ (by simp) (by simp)
    intro clean
    simpa using (Bool.or_eq_false_iff.mp clean).1

/-! ## Changes -/

theorem Sound.changeRecords (values : PageValues) (idle : page.stage = .idle) :
    Sound crc32 maxDataLength (writer.setPage p (page.update values)) := by
  have pageSound := sound.pages p page found
  apply sound.setPage
  refine ⟨pageSound.status, pageSound.once, pageSound.inFlight, fun needDisk => ?_,
    fun _ => ⟨rfl, rfl⟩, by simp [IndexPage.update], by simp [IndexPage.update], fun _ => rfl,
    fun _ => rfl, fun move same => ?_, fun bytes _ => Or.inr ⟨rfl, Or.inl rfl⟩⟩
  · rcases pageSound.sealed needDisk with isSealed | ⟨splitting, -⟩
    · exact Or.inl isSealed
    · simp [idle] at splitting
  · have settling : page.stage = .settling move := same
    simp [idle] at settling

theorem Sound.changePointers (pointers : List Byte) (idle : page.stage = .idle) :
    Sound crc32 maxDataLength (writer.setPage p
      { page with pointers := pointers, bDirty := true, bWriteQueue := true }) := by
  have pageSound := sound.pages p page found
  apply sound.setPage
  refine ⟨pageSound.status, pageSound.once, pageSound.inFlight, fun needDisk => ?_,
    fun unstable => ⟨rfl, (pageSound.unstable unstable).2⟩, pageSound.recorded, by simp,
    fun _ => rfl, fun _ => rfl, fun move same => ?_, fun bytes _ => Or.inr ⟨rfl, Or.inl rfl⟩⟩
  · rcases pageSound.sealed needDisk with isSealed | ⟨splitting, -⟩
    · exact Or.inl isSealed
    · simp [idle] at splitting
  · have settling : page.stage = .settling move := same
    simp [idle] at settling

theorem Sound.resolve (records : List Byte) (stable : Bool) (unstable : page.stable = false)
    (fitting : page.stage = .splitting → records.length ≤ maxDataLength) :
    Sound crc32 maxDataLength
      (writer.setPage p { page with records := records, stable := stable }) := by
  have pageSound := sound.pages p page found
  have dirty := pageSound.unstable unstable
  apply sound.setPage
  refine { pageSound with
    sealed := fun needDisk => ?_, unstable := fun _ => dirty, recorded := by simp [dirty.2],
    clean := by simp [dirty.1],
    again := fun bytes _ => Or.inr ⟨pageSound.queued dirty.1, Or.inl dirty.1⟩ }
  rcases pageSound.sealed needDisk with isSealed | ⟨splitting, fits⟩
  · exact Or.inl isSealed
  · exact Or.inr ⟨splitting, fits.status, fits.committed, fun _ => fitting splitting⟩

theorem Sound.beginSplit (values : PageValues) (idle : page.stage = .idle)
    (regular : RegularPage maxDataLength page (.beginSplit p values)) :
    Sound crc32 maxDataLength (writer.setPage p { page.update values with
      bysPage := if page.bysPage.isEndPage then page.bysPage.setEndPage false else page.bysPage
      stage := .splitting }) := by
  have pageSound := sound.pages p page found
  apply sound.setPage
  cases kind : page.bysPage.isEndPage with
  | false =>
      refine ⟨pageSound.status, pageSound.once, pageSound.inFlight, fun needDisk => ?_,
        fun _ => ⟨rfl, rfl⟩, by simp [IndexPage.update], by simp [IndexPage.update], fun _ => rfl,
        fun _ => rfl, by simp, fun bytes _ => Or.inr ⟨rfl, Or.inl rfl⟩⟩
      rcases pageSound.sealed needDisk with isSealed | ⟨splitting, -⟩
      · exact Or.inl isSealed
      · simp [idle] at splitting
  | true =>
      rcases regular kind with ⟨notWriting, committed, records⟩
      have valid := pageSound.status.resolve_right notWriting
      refine ⟨pageSound.status, pageSound.once, fun write mem same => ?_, fun _ => ?_,
        fun _ => ⟨rfl, rfl⟩, by simp [IndexPage.update], by simp [IndexPage.update], fun _ => rfl,
        fun _ => rfl, by simp, fun bytes _ => Or.inr ⟨rfl, Or.inl rfl⟩⟩
      · exact absurd same (pageSound.idle valid write mem)
      · exact Or.inr ⟨rfl, valid, committed, records⟩

end

/-! ## New pages -/

theorem Sound.append (sound : Sound crc32 maxDataLength writer)
    (pageSound : PageSound crc32 maxDataLength writer.writes writer.pages.length page)
    (buffers : ℕ) :
    Sound crc32 maxDataLength
      { writer with pages := writer.pages ++ [page], buffers := buffers } := by
  refine ⟨fun q other found => ?_, fun write mem => ?_⟩
  · simp only [List.getElem?_append, List.getElem?_singleton] at found
    split at found
    · exact sound.pages q other found
    · rename_i beyond
      rcases Option.ite_none_right_eq_some.mp found with ⟨last, ⟨⟩⟩
      have here : q = writer.pages.length := by omega
      rw [here]
      exact pageSound
  · have inside := sound.inside write mem
    simp only [List.length_append, List.length_singleton]
    omega

theorem Sound.absent (sound : Sound crc32 maxDataLength writer) :
    ∀ write ∈ writer.writes, write.page ≠ writer.pages.length :=
  fun write mem => Nat.ne_of_lt (sound.inside write mem)

theorem count_eq_zero_of_absent (absent : ∀ write ∈ writes, write.page ≠ p) :
    (writes.map Write.page).count p = 0 := by
  rw [List.count_eq_zero]
  intro mem
  rcases List.mem_map.mp mem with ⟨write, member, same⟩
  exact absent write member same

theorem loadPage_sound (absent : ∀ write ∈ writes, write.page ≠ p) (isLeaf : Bool)
    (beginEnd : Byte) (values : PageValues) (bNeedDisk : Bool) (buffer : ℕ) :
    PageSound crc32 maxDataLength writes p
      (loadPage crc32 isLeaf beginEnd values bNeedDisk buffer) := by
  refine ⟨Or.inl rfl, count_eq_zero_of_absent absent,
    fun write mem same => absurd same (absent write mem), fun _ => Or.inl rfl, ?_, fun _ => rfl,
    fun _ => ⟨rfl, rfl⟩, ?_, ?_, ?_, ?_⟩
  all_goals simp [loadPage, IndexPage.content]

theorem newPage_sound (absent : ∀ write ∈ writes, write.page ≠ p) (isLeaf : Bool)
    (bysPage : PageBuffer) (values : PageValues) (buffer : ℕ) :
    PageSound crc32 maxDataLength writes p (newPage isLeaf bysPage values buffer) := by
  refine ⟨Or.inl rfl, count_eq_zero_of_absent absent,
    fun write mem same => absurd same (absent write mem), ?_, ?_, ?_, ?_, ?_, ?_, ?_, ?_⟩
  all_goals simp [newPage, IndexPage.update]

section

variable (sound : PageSound crc32 maxDataLength writes p page)

include sound

theorem PageSound.saveNew (queued : page.bWriteQueue = true) (idle : page.stage = .idle)
    (buffer : ℕ) :
    PageSound crc32 maxDataLength writes p (page.saveRecords crc32 maxDataLength buffer).2 := by
  rcases saveRecords_spec sound buffer with
    ⟨refused, committedDataLength, saved⟩ |
    ⟨valid, bysPage, buffer, committedDataLength, saved, isSealed, pointers, records⟩
  · rw [saved]
    apply sound.refused refused committedDataLength queued
    all_goals simp [idle]
  · rw [saved]
    apply sound.saved valid isSealed pointers records queued
    all_goals simp [idle]

/-! ## Writes -/

theorem PageSound.frame {writes' : List Write}
    (count : (writes'.map Write.page).count p = (writes.map Write.page).count p)
    (known : ∀ write ∈ writes', write.page = p → write ∈ writes) :
    PageSound crc32 maxDataLength writes' p page := by
  have once := sound.once
  rw [← count] at once
  exact { sound with
    once := once
    inFlight := fun write mem same => sound.inFlight write (known write mem same) same }

theorem PageSound.leaveMap_queued {move : Bool} (settling : page.stage = .settling move)
    (dirty : page.bDirty = true) : (page.leaveMap move).bWriteQueue = true := by
  rcases sound.settling move settling with ⟨queued, clean⟩
  cases move with
  | true => simp [clean] at dirty
  | false => simp [IndexPage.leaveMap, queued]

theorem PageSound.leaveMap {move : Bool} (settling : page.stage = .settling move)
    (notNeedDisk : page.bNeedDisk = false) :
    PageSound crc32 maxDataLength writes p (page.leaveMap move) := by
  refine { sound with
    sealed := fun needDisk => ?_, queued := sound.leaveMap_queued settling, splitting := ?_,
    settling := ?_, again := fun bytes same => ?_ }
  · simp [IndexPage.leaveMap, notNeedDisk] at needDisk
  · simp [IndexPage.leaveMap]
  · simp [IndexPage.leaveMap]
  · rcases sound.again bytes same with unchanged | ⟨-, dirty | needDisk⟩
    · exact Or.inl unchanged
    · exact Or.inr ⟨sound.leaveMap_queued settling dirty, Or.inl dirty⟩
    · simp [notNeedDisk] at needDisk

theorem PageSound.handed {move : Bool} (settling : page.stage = .settling move)
    (needDisk : page.bNeedDisk = true) (valid : page.pageStatus = .valid) :
    PageSound crc32 maxDataLength (writes ++ [{ page := p, handed := page.bysPage }]) p
      { (page.leaveMap move).setNeedDisk false with
        pageStatus := .writing
        written := some page.bysPage.bytes } := by
  have isSealed : page.bysPage.Sealed crc32 := by
    rcases sound.sealed needDisk with isSealed | ⟨splitting, -⟩
    · exact isSealed
    · simp [settling] at splitting
  have none := count_eq_zero_of_absent (sound.idle valid)
  refine ⟨Or.inr rfl, by simp [none], fun write mem same => ?_, fun _ => Or.inl isSealed,
    sound.unstable, sound.recorded, sound.clean, sound.leaveMap_queued settling, ?_, ?_,
    fun bytes same => ?_⟩
  · rcases List.mem_append.mp mem with old | new
    · exact absurd same (sound.idle valid write old)
    · cases List.mem_singleton.mp new
      exact ⟨rfl, isSealed, by simp⟩
  · simp [IndexPage.setNeedDisk, IndexPage.leaveMap]
  · simp [IndexPage.setNeedDisk, IndexPage.leaveMap]
  · cases same
    cases dirty : page.bDirty with
    | true => exact Or.inr ⟨sound.leaveMap_queued settling dirty, Or.inr rfl⟩
    | false =>
        have clean := sound.clean dirty
        left
        simp [PageBuffer.bytes, IndexPage.content, IndexPage.setNeedDisk, IndexPage.leaveMap,
          clean.2, sound.recorded clean.1]

end

theorem Sound.replace {writes' : List Write} (sound : Sound crc32 maxDataLength writer)
    (pageSound : PageSound crc32 maxDataLength writes' p page')
    (frame : ∀ q, q ≠ p → (writes'.map Write.page).count q =
      (writer.writes.map Write.page).count q)
    (known : ∀ write ∈ writes', write ∈ writer.writes ∨ write.page = p)
    (inside : p < writer.pages.length) :
    Sound crc32 maxDataLength { writer.setPage p page' with writes := writes' } := by
  refine ⟨fun q other found => ?_, fun write mem => ?_⟩
  · have found' : (writer.pages.set p page')[q]? = some other := found
    by_cases same : p = q
    · subst same
      rw [List.getElem?_set_self inside] at found'
      cases found'
      exact pageSound
    · rw [List.getElem?_set_ne same] at found'
      apply (sound.pages q other found').frame (frame q (Ne.symm same))
      intro write mem samePage
      rcases known write mem with old | here
      · exact old
      · exact absurd (here.symm.trans samePage) same
  · have within : write.page < writer.pages.length := by
      rcases known write mem with old | here
      · exact sound.inside write old
      · exact here ▸ inside
    simpa [PageWriter.setPage] using within

theorem Sound.hand (sound : Sound crc32 maxDataLength writer) (found : writer.pages[p]? = some page)
    (regular : page.pageStatus ≠ .writing)
    (step : pageStep crc32 maxDataLength writer p page (.hand p) = some writer') :
    Sound crc32 maxDataLength writer' := by
  have pageSound := sound.pages p page found
  have valid := pageSound.status.resolve_right regular
  simp only [pageStep] at step
  split at step
  · rename_i move settling
    split at step
    · rename_i needDisk
      rw [if_pos (Or.inl valid)] at step
      cases step
      apply sound.replace (pageSound.handed settling needDisk valid)
      · intro q other
        simp [Ne.symm other]
      · intro write mem
        rcases List.mem_append.mp mem with old | new
        · exact Or.inl old
        · cases List.mem_singleton.mp new
          exact Or.inr rfl
      · exact (List.getElem?_eq_some_iff.mp found).1
    · rename_i notNeedDisk
      rw [Bool.not_eq_true] at notNeedDisk
      cases step
      apply sound.setPage
      exact pageSound.leaveMap settling notNeedDisk
  · cases step

theorem Sound.prepare (sound : Sound crc32 maxDataLength writer) {k : ℕ} {write : Write}
    (taken : writer.writes[k]? = some write) (found : writer.pages[write.page]? = some page) :
    Sound crc32 maxDataLength
      { writer with writes := writer.writes.set k { write with buffer := page.buffer } } := by
  rcases List.getElem?_eq_some_iff.mp taken with ⟨within, writeEq⟩
  have mem : write ∈ writer.writes := writeEq ▸ List.getElem_mem within
  have pagesEq : (writer.writes.set k { write with buffer := page.buffer }).map Write.page =
      writer.writes.map Write.page := by
    rw [List.map_set]
    apply List.ext_getElem (by simp)
    intro j _ _
    by_cases same : k = j
    · subst same
      simp [writeEq]
    · simp [List.getElem_set_ne same]
  refine ⟨fun q other otherFound => ?_, fun new newMem => ?_⟩
  · have otherSound := sound.pages q other otherFound
    have once := otherSound.once
    rw [← pagesEq] at once
    refine { otherSound with once := once, inFlight := fun new newMem same => ?_ }
    rcases List.mem_or_eq_of_mem_set newMem with old | rfl
    · exact otherSound.inFlight new old same
    · have samePage : write.page = q := same
      rw [← samePage, found] at otherFound
      cases otherFound
      rcases otherSound.inFlight write mem samePage with ⟨bysPage, isSealed, -⟩
      refine ⟨bysPage, isSealed, fun buffer taking => ?_⟩
      cases taking
      rfl
  · rcases List.mem_or_eq_of_mem_set newMem with old | rfl
    · exact sound.inside new old
    · exact sound.inside write mem

theorem Sound.complete (sound : Sound crc32 maxDataLength writer) {k : ℕ} {write : Write}
    (taken : writer.writes[k]? = some write) (found : writer.pages[write.page]? = some page) :
    Sound crc32 maxDataLength { writer.setPage write.page { page with pageStatus := .valid } with
      writes := writer.writes.eraseIdx k } := by
  have pageSound := sound.pages write.page page found
  have takenPage : (writer.writes.map Write.page)[k]? = some write.page := by simp [taken]
  have balance := Holders.count_eraseIdx takenPage
  rw [List.eraseIdx_map] at balance
  have none : ((writer.writes.eraseIdx k).map Write.page).count write.page = 0 := by
    have once := pageSound.once
    have here := balance write.page
    rw [List.count_singleton_self] at here
    split at once
    · omega
    · omega
  apply sound.replace
  · refine { pageSound with
      status := Or.inl rfl
      once := none
      inFlight := fun other mem same => ?_
      sealed := fun needDisk => ?_ }
    · rw [List.count_eq_zero] at none
      exact absurd (List.mem_map.mpr ⟨other, mem, same⟩) none
    · rcases pageSound.sealed needDisk with isSealed | ⟨splitting, fits⟩
      · exact Or.inl isSealed
      · exact Or.inr ⟨splitting, rfl, fits.committed, fits.records⟩
  · intro q other
    have there := balance q
    rw [List.count_singleton, if_neg (by simpa using Ne.symm other)] at there
    exact there
  · exact fun other mem => Or.inl (List.mem_of_mem_eraseIdx mem)
  · exact (List.getElem?_eq_some_iff.mp found).1

/-! ## Runs -/

theorem sound_new : Sound crc32 maxDataLength {} := ⟨by simp, by simp⟩

theorem sound_pageStep {event : WriteEvent} (sound : Sound crc32 maxDataLength writer)
    (found : writer.pages[p]? = some page) (here : event.page = some p)
    (regular : RegularPage maxDataLength page event)
    (step : pageStep crc32 maxDataLength writer p page event = some writer') :
    Sound crc32 maxDataLength writer' := by
  cases event with
  | load | newPage | prepare | complete => cases here
  | changeRecords q values =>
      rcases Option.ite_none_right_eq_some.mp step with ⟨-, ⟨⟩⟩
      exact sound.changeRecords found values regular
  | changePointers q pointers =>
      cases step
      exact sound.changePointers found pointers regular
  | resolve q records stable =>
      rcases Option.ite_none_left_eq_some.mp step with ⟨unstable, step⟩
      rw [Bool.not_eq_true] at unstable
      cases step
      exact sound.resolve found records stable unstable regular
  | beginSplit q values =>
      rcases Option.ite_none_right_eq_some.mp step with ⟨idle, ⟨⟩⟩
      cases here
      exact sound.beginSplit found values idle.1 regular
  | endSplit q =>
      cases here
      exact sound.endSplit found step
  | save q =>
      cases here
      exact sound.save found step
  | hand q =>
      cases here
      exact sound.hand found regular step

theorem sound_next {event : WriteEvent} (sound : Sound crc32 maxDataLength writer)
    (regular : Regular maxDataLength writer event)
    (step : next crc32 maxDataLength writer event = some writer') :
    Sound crc32 maxDataLength writer' := by
  cases event with
  | load isLeaf beginEnd values bNeedDisk =>
      cases step
      apply sound.append
      exact loadPage_sound sound.absent isLeaf beginEnd values bNeedDisk writer.buffers
  | newPage isLeaf bysPage values root =>
      rcases Option.ite_none_right_eq_some.mp step with ⟨-, ⟨⟩⟩
      have new : PageSound crc32 maxDataLength writer.writes writer.pages.length
          (newPage isLeaf bysPage values writer.buffers) :=
        newPage_sound sound.absent isLeaf bysPage values writer.buffers
      apply sound.append
      split
      · exact new
      · exact new.saveNew rfl rfl (writer.buffers + 1)
  | prepare k =>
      simp only [next, Option.bind_eq_bind, Option.bind_eq_some_iff] at step
      rcases step with ⟨write, taken, page, found, step⟩
      cases step
      exact sound.prepare taken found
  | complete k =>
      simp only [next, Option.bind_eq_bind, Option.bind_eq_some_iff] at step
      rcases step with ⟨write, taken, page, found, step⟩
      rcases Option.ite_none_left_eq_some.mp step with ⟨-, ⟨⟩⟩
      exact sound.complete taken found
  | changeRecords p | changePointers p | resolve p | beginSplit p | endSplit p | save p | hand p =>
      simp only [next, Option.bind_eq_some_iff] at step
      rcases step with ⟨page, found, step⟩
      exact sound_pageStep sound found rfl (regular p rfl page found) step

theorem Sound.written (sound : Sound crc32 maxDataLength writer) : Written crc32 writer := by
  have flight : ∀ write ∈ writer.writes, ∃ page, writer.pages[write.page]? = some page ∧
      page.bysPage = write.handed ∧ page.bysPage.Sealed crc32 ∧
      ∀ buffer, write.buffer = some buffer → buffer = page.buffer := by
    intro write mem
    have found := List.getElem?_eq_getElem (sound.inside write mem)
    exact ⟨_, found, (sound.pages _ _ found).inFlight write mem rfl⟩
  refine ⟨fun write mem => ?_, fun write mem => ?_, fun page mem bytes same changed => ?_⟩
  · rcases flight write mem with ⟨page, -, handed, isSealed, -⟩
    rw [← handed]
    exact isSealed
  · rcases flight write mem with ⟨page, found, handed, -, buffer⟩
    exact ⟨page, found, handed, buffer⟩
  · rcases List.mem_iff_getElem?.mp mem with ⟨q, found⟩
    exact ((sound.pages q page found).again bytes same).resolve_left changed

/-- In a run of regular steps, every page that is handed to the page writer carries the checksum of
its bytes, these stay as they are until the write has completed, and a page that has changed since
it was handed over is in the write map. -/
theorem written_of_regular (crc32 : List Byte → ℕ) (maxDataLength : ℕ) (writer : PageWriter)
    (run : Reaches (next crc32 maxDataLength) (Regular maxDataLength) {} writer) :
    Written crc32 writer :=
  (run.preserves sound_new
    (fun _ _ _ regular sound step => sound_next sound regular step)).written

end Checksum

/-- A page with the end mark is split after its write, and the end of the statement takes its
records back before both pages are handed over. -/
theorem written_of_regular_split : ∃ writer,
    Reaches (next crc32 4) (Regular 4) {} writer ∧
      writer.writes.map (fun write => (write.page, write.handed.bytes, write.buffer)) =
        [(0, [0, 1, 5], none), (1, [64, 0, 7], some 3)] ∧ Written crc32 writer := by
  let events : List WriteEvent :=
    [.load true 0x40 ⟨[1], [2], true, 1⟩ false, .changeRecords 0 ⟨[1], [3], true, 1⟩, .save 0,
      .hand 0, .prepare 0, .complete 0, .beginSplit 0 ⟨[1], [4], false, 1⟩,
      .newPage true ⟨0x40, [], [], 0⟩ ⟨[0], [7], true, 1⟩ false, .resolve 0 [5] true,
      .endSplit 0, .save 0, .hand 0, .save 1, .hand 1, .prepare 1]
  have executed : (execPermitted (next crc32 4) (Regular 4) events {}).map (fun writer =>
      writer.writes.map fun write => (write.page, write.handed.bytes, write.buffer)) =
        some [(0, [0, 1, 5], none), (1, [64, 0, 7], some 3)] := by
    decide +kernel
  rcases Option.map_eq_some_iff.mp executed with ⟨writer, run, same⟩
  have reached := reaches_of_execPermitted events run
  exact ⟨writer, reached, same, written_of_regular crc32 4 writer reached⟩

/-- A page that is handed over twice is changed when its first write has ended; a split takes the
end mark from a page that is being written, and what is handed over next has the checksum of
before. -/
theorem not_written :
    (∃ writer, Reaches (next crc32 4) anyInput {} writer ∧
      writer.pages.map (fun page => page.bysPage.records) = [[4]] ∧
      writer.writes.map (fun write => write.handed.records) = [[3]]) ∧
    (∃ writer, Reaches (next crc32 4) anyInput {} writer ∧
      ∃ write ∈ writer.writes, ¬write.handed.Sealed crc32) ∧
    ¬∀ writer, Reaches (next crc32 4) anyInput {} writer → Written crc32 writer := by
  have changed : ∃ writer, Reaches (next crc32 4) anyInput {} writer ∧
      writer.pages.map (fun page => page.bysPage.records) = [[4]] ∧
      writer.writes.map (fun write => write.handed.records) = [[3]] := by
    let events : List WriteEvent :=
      [.load true 0 ⟨[1], [2], true, 1⟩ false, .changeRecords 0 ⟨[1], [3], true, 1⟩, .save 0,
        .hand 0, .changeRecords 0 ⟨[1], [4], true, 1⟩, .save 0, .hand 0, .prepare 0, .complete 0,
        .save 0]
    have executed : (exec (next crc32 4) events {}).map (fun writer =>
        (writer.pages.map (fun page => page.bysPage.records),
          writer.writes.map fun write => write.handed.records)) = some ([[4]], [[3]]) := by
      decide +kernel
    rcases Option.map_eq_some_iff.mp executed with ⟨writer, run, same⟩
    rcases Prod.mk.inj same with ⟨pages, writes⟩
    exact ⟨writer, reaches_of_exec events run, pages, writes⟩
  have stale : ∃ writer, Reaches (next crc32 4) anyInput {} writer ∧
      ∃ write ∈ writer.writes, ¬write.handed.Sealed crc32 := by
    let events : List WriteEvent :=
      [.load true 0x40 ⟨[1], [2], true, 1⟩ false, .changeRecords 0 ⟨[1], [3], true, 1⟩, .save 0,
        .hand 0, .beginSplit 0 ⟨[1], [4], true, 1⟩, .endSplit 0, .save 0, .hand 0]
    have executed : (exec (next crc32 4) events {}).map (fun writer =>
        (writer.writes[1]?).map fun write =>
          decide (write.handed.crc32 = crc32 write.handed.bytes)) =
        some (some false) := by
      decide +kernel
    rcases Option.map_eq_some_iff.mp executed with ⟨writer, run, second⟩
    rcases Option.map_eq_some_iff.mp second with ⟨write, found, wrong⟩
    have differs : ¬write.handed.crc32 = crc32 write.handed.bytes :=
      of_decide_eq_false wrong
    exact ⟨writer, reaches_of_exec events run, write, List.mem_of_getElem? found, differs⟩
  refine ⟨changed, stale, fun always => ?_⟩
  rcases stale with ⟨writer, run, write, mem, wrong⟩
  exact wrong ((always writer run).sealed write mem)

end PageWrite

end RapidDb
