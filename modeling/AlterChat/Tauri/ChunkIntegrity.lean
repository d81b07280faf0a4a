import AlterChat.Lib.Cabinet
import AlterChat.Tauri.ChunkStorage

/-!
# The rows and the files of the chunk store

`stored_chunks` has its rows by the hash of a chunk, and the file of a row lies at a path made of
another hash, or of what a peer calls the transfer. Two chunks of one transfer and index share a
file; one chunk of two transfers leaves a file without a row; and what the cleanup removes is then
not what has expired.

* §1 the bytes that were saved last, and `Intact`; `cabinet` -- the store as rows that name files;
* §2 the cleanup, §3 what a call stores;
* §4 `intact_kept` -- when the store stays intact in every run;
* §5 two chunks of one transfer.
-/

namespace AlterChat.ChunkIntegrity

open Lib Lib.Paths Governance Commands Identity Profile Inbound Chunks ChunkStorage

variable {Key : Type}

/-! ## 1. Rows and files -/

/-- A device, with the bytes that were written when a row was last saved. -/
structure Traced (Key : Type) where
  device : ChunkDevice Key
  saved : String → Bytes

/-- The bytes after these chunks have been saved. -/
def note (saved : String → Bytes) (chunks : List SavedChunk) : String → Bytes :=
  chunks.foldl (fun saved c => Function.update saved c.hash c.bytes) saved

/-- An event happens. -/
def happens (F : ChunkFormats) (t : Traced Key) (e : StoreEvent) (t' : Traced Key) : Prop :=
  t' = { device := e.run F t.device, saved := note t.saved (e.saves F t.device) }

/-- **The store is intact**: a row that has not expired has its file with the bytes that were
    written for it, no two rows share a file, and no file is without a row. -/
structure Intact (t : Traced Key) : Prop where
  kept : ∀ nowMs hash row, t.device.store.chunks.lookup hash = some row →
    expired nowMs row = false →
    t.device.disk.get row.path = some (t.saved hash)
  apart : ∀ hash hash' row row', t.device.store.chunks.lookup hash = some row →
    t.device.store.chunks.lookup hash' = some row' → place row.path = place row'.path → hash = hash'
  referenced : ∀ p bytes, t.device.disk.lookup p = some bytes →
    ∃ hash row, t.device.store.chunks.lookup hash = some row ∧ place row.path = p

/-- The store as rows that name files. -/
def cabinet (saved : String → Bytes) (s : Table String StoredChunk × Disk Bytes) :
    Cabinet String Location Bytes where
  row hash := (s.1.lookup hash).map fun row => (place row.path, saved hash)
  file p := s.2.lookup p

/-- The tables and the files. -/
def Traced.parts (t : Traced Key) : Table String StoredChunk × Disk Bytes :=
  (t.device.store.chunks, t.device.disk)

section

variable {saved : String → Bytes} {s : Table String StoredChunk × Disk Bytes}

theorem cabinet_row {hash : String} {row : StoredChunk} (h : s.1.lookup hash = some row) :
    (cabinet saved s).row hash = some (place row.path, saved hash) := by
  show (s.1.lookup hash).map _ = _
  rw [h]
  rfl

theorem row_of_cabinet {hash : String} {p : Location} {bytes : Bytes}
    (h : (cabinet saved s).row hash = some (p, bytes)) :
    ∃ row, s.1.lookup hash = some row ∧ place row.path = p ∧ saved hash = bytes := by
  obtain ⟨row, hrow, heq⟩ := Option.map_eq_some_iff.mp h
  cases heq
  exact ⟨row, hrow, rfl, rfl⟩

end

/-- There is a time at which a row has not expired. -/
theorem exists_unexpired (row : StoredChunk) : ∃ nowMs, expired nowMs row = false := by
  unfold expired
  cases row.expiresAt with
  | none => exact ⟨0, rfl⟩
  | some expiresAt => exact ⟨expiresAt, decide_eq_false Int64.lt_irrefl⟩

/-- **The store is intact just when its cabinet is.** -/
theorem intact_iff (t : Traced Key) : Intact t ↔ (cabinet t.saved t.parts).Intact := by
  constructor
  · intro h
    refine ⟨fun hash p bytes hrow => ?_, fun hash hash' p bytes bytes' hrow hrow' => ?_,
      fun p bytes hfile => ?_⟩
    · obtain ⟨row, hlookup, rfl, rfl⟩ := row_of_cabinet hrow
      obtain ⟨nowMs, hnow⟩ := exists_unexpired row
      exact h.kept nowMs hash row hlookup hnow
    · obtain ⟨row, hlookup, rfl, -⟩ := row_of_cabinet hrow
      obtain ⟨row', hlookup', hplace, -⟩ := row_of_cabinet hrow'
      exact h.apart hash hash' row row' hlookup hlookup' hplace.symm
    · obtain ⟨hash, row, hlookup, rfl⟩ := h.referenced p bytes hfile
      exact ⟨hash, t.saved hash, cabinet_row hlookup⟩
  · intro h
    refine ⟨fun nowMs hash row hrow _ => ?_, fun hash hash' row row' hrow hrow' hplace => ?_,
      fun p bytes hfile => ?_⟩
    · exact h.kept hash _ _ (cabinet_row hrow)
    · have hfiled' : (cabinet t.saved t.parts).row hash' = some (place row'.path, t.saved hash') :=
        cabinet_row hrow'
      rw [← hplace] at hfiled'
      exact h.apart hash hash' _ _ _ (cabinet_row hrow) hfiled'
    · obtain ⟨hash, bytes', hrow⟩ := h.named p bytes hfile
      obtain ⟨row, hlookup, hplace, -⟩ := row_of_cabinet hrow
      exact ⟨hash, row, hlookup, hplace⟩

/-! ## 2. The cleanup -/

/-- The cleanup removes the file of an expired chunk just when it deletes its row. -/
def Cleans (c : Cleanup) (chunks : Table String StoredChunk) : Prop :=
  c.selectFault = none → ∀ hash row, chunks.lookup hash = some row → expired c.nowMs row = true →
    c.removes row.path = c.deletes hash

section

variable {saved : String → Bytes} {chunks : Table String StoredChunk} {disk : Disk Bytes}

/-- A row is deleted with its file. -/
theorem cabinet_drop {hash : String} {row : StoredChunk} (h : chunks.lookup hash = some row) :
    cabinet saved (chunks.erase hash, disk.erase (place row.path)) =
      (cabinet saved (chunks, disk)).drop hash := by
  have hrow : (cabinet saved (chunks, disk)).row hash = some (place row.path, saved hash) :=
    cabinet_row h
  rw [Cabinet.drop, hrow]
  refine congrArg₂ Cabinet.mk (funext fun k => ?_) (funext fun p => ?_)
  · by_cases hk : k = hash
    · subst hk
      rw [AList.lookup_erase, Function.update_self]
      rfl
    · rw [AList.lookup_erase_ne hk, Function.update_of_ne hk]
      rfl
  · by_cases hp : p = place row.path
    · subst hp
      rw [AList.lookup_erase, Function.update_self]
    · rw [AList.lookup_erase_ne hp, Function.update_of_ne hp]
      rfl

/-- The body of the loop keeps the store intact. -/
theorem removeExpired_intact {c : Cleanup} {e : String × String} {row : StoredChunk}
    (h : (cabinet saved (chunks, disk)).Intact) (hrow : chunks.lookup e.1 = some row)
    (hpath : row.path = e.2) (hcleans : c.removes e.2 = c.deletes e.1) :
    (cabinet saved (removeExpired c (chunks, disk) e)).Intact := by
  unfold removeExpired
  rw [hcleans]
  cases c.deletes e.1 with
  | false => exact h
  | true =>
    have hdrop : cabinet saved (chunks.erase e.1, disk.erase (place row.path)) = _ :=
      cabinet_drop hrow
    rw [hpath] at hdrop
    simp only [if_true]
    rw [hdrop]
    exact Cabinet.drop_intact h e.1

/-- The loop, over rows that are there. -/
theorem removeAll_intact {c : Cleanup} {es : List (String × String)}
    (h : (cabinet saved (chunks, disk)).Intact) (hnodup : (es.map Prod.fst).Nodup)
    (hrows : ∀ e ∈ es, ∃ row, chunks.lookup e.1 = some row ∧ row.path = e.2)
    (hcleans : ∀ e ∈ es, c.removes e.2 = c.deletes e.1) :
    (cabinet saved (es.foldl (removeExpired c) (chunks, disk))).Intact := by
  induction es generalizing chunks disk with
  | nil => exact h
  | cons e rest ih =>
    obtain ⟨row, hrow, hpath⟩ := hrows e List.mem_cons_self
    rw [List.map_cons, List.nodup_cons] at hnodup
    have hstep := removeExpired_intact h hrow hpath (hcleans e List.mem_cons_self)
    refine ih hstep hnodup.2 (fun e' he' => ?_) fun e' he' =>
      hcleans e' (List.mem_cons_of_mem _ he')
    -- the row of another entry stays
    have hne : e'.1 ≠ e.1 := fun heq => hnodup.1 (heq ▸ List.mem_map_of_mem he')
    obtain ⟨row', hrow', hpath'⟩ := hrows e' (List.mem_cons_of_mem _ he')
    refine ⟨row', ?_, hpath'⟩
    split
    · rw [AList.lookup_erase_ne hne]
      exact hrow'
    · exact hrow'

/-- **The cleanup keeps the store intact** if it fails for no row alone, and for no file alone. -/
theorem cleanup_intact {c : Cleanup} (h : (cabinet saved (chunks, disk)).Intact)
    (hcleans : Cleans c chunks) :
    (cabinet saved (cleanupExpiredStorage c (chunks, disk))).Intact := by
  unfold cleanupExpiredStorage expiredStoredChunks
  cases hfault : c.selectFault with
  | some e => exact h
  | none =>
    have hentry : ∀ e ∈ (chunks.entries.filter fun r => expired c.nowMs r.2).map fun r =>
      (r.1, r.2.path),
        ∃ row, chunks.lookup e.1 = some row ∧ row.path = e.2 ∧ expired c.nowMs row = true := by
      intro e he
      obtain ⟨r, hr, rfl⟩ := List.mem_map.mp he
      obtain ⟨hmem, hexpired⟩ := List.mem_filter.mp hr
      exact ⟨r.2, AList.mem_lookup_iff.mpr hmem, rfl, hexpired⟩
    refine removeAll_intact h ?_ (fun e he => ?_) fun e he => ?_
    · rw [List.map_map]
      exact chunks.nodupKeys.sublist List.filter_sublist
    · obtain ⟨row, hrow, hpath, -⟩ := hentry e he
      exact ⟨row, hrow, hpath⟩
    · obtain ⟨row, hrow, hpath, hexpired⟩ := hentry e he
      rw [← hpath]
      exact hcleans hfault e.1 row hrow hexpired

end

/-- Nothing fails that would leave the file of an expired chunk. -/
structure Thorough (c : Cleanup) (chunks : Table String StoredChunk) : Prop where
  select : c.selectFault = none
  removes : ∀ hash row, chunks.lookup hash = some row → expired c.nowMs row = true →
    c.removes row.path = true

/-- The files after the loop. -/
theorem removeAll_lookup {c : Cleanup} {es : List (String × String)}
    (hremoves : ∀ e ∈ es, c.removes e.2 = true) (chunks : Table String StoredChunk)
    (disk : Disk Bytes) {p : Location} :
    (es.foldl (removeExpired c) (chunks, disk)).2.lookup p = none ↔
      disk.lookup p = none ∨ ∃ e ∈ es, place e.2 = p := by
  induction es generalizing chunks disk with
  | nil => simp
  | cons e rest ih =>
    have hstep : removeExpired c (chunks, disk) e =
        ((removeExpired c (chunks, disk) e).1, disk.erase (place e.2)) := by
      rw [removeExpired, hremoves e List.mem_cons_self, if_pos rfl]
    rw [List.foldl_cons, hstep, ih fun e' he' => hremoves e' (List.mem_cons_of_mem _ he')]
    by_cases hp : p = place e.2
    · subst hp
      simp
    · rw [AList.lookup_erase_ne hp]
      simp [Ne.symm hp]

/-- **A thorough cleanup removes the files of the expired chunks, and no other.** -/
theorem cleanup_lookup {c : Cleanup} {chunks : Table String StoredChunk} (h : Thorough c chunks)
    (disk : Disk Bytes) {p : Location} :
    (cleanupExpiredStorage c (chunks, disk)).2.lookup p = none ↔
      disk.lookup p = none ∨
        ∃ hash row, chunks.lookup hash = some row ∧ expired c.nowMs row = true ∧
        place row.path = p := by
  unfold cleanupExpiredStorage expiredStoredChunks
  rw [h.select]
  simp only
  rw [removeAll_lookup fun e he => ?_]
  · refine or_congr_right ⟨?_, ?_⟩
    · rintro ⟨e, he, hplace⟩
      obtain ⟨r, hr, rfl⟩ := List.mem_map.mp he
      obtain ⟨hmem, hexpired⟩ := List.mem_filter.mp hr
      exact ⟨r.1, r.2, AList.mem_lookup_iff.mpr hmem, hexpired, hplace⟩
    · rintro ⟨hash, row, hrow, hexpired, hplace⟩
      refine ⟨(hash, row.path), List.mem_map.mpr ⟨⟨hash, row⟩, ?_, rfl⟩, hplace⟩
      exact List.mem_filter.mpr ⟨AList.mem_lookup_iff.mp hrow, hexpired⟩
  · obtain ⟨r, hr, rfl⟩ := List.mem_map.mp he
    obtain ⟨hmem, hexpired⟩ := List.mem_filter.mp hr
    exact h.removes r.1 r.2 (AList.mem_lookup_iff.mpr hmem) hexpired

/-- In an empty table nothing has expired. -/
theorem cleanup_empty (c : Cleanup) (disk : Disk Bytes) :
    cleanupExpiredStorage c (∅, disk) = (∅, disk) := by
  unfold cleanupExpiredStorage expiredStoredChunks
  cases c.selectFault <;> rfl

/-! ## 3. What a call stores -/

/-- A file is there already, and a row has it. -/
def Again (saved : String → Bytes) (chunks : Table String StoredChunk)
    (file : String × Bytes) : Prop :=
  ∃ hash row, chunks.lookup hash = some row ∧ place row.path = place file.1 ∧ saved hash = file.2

/-- A chunk has its place to itself, and its row, if it has one, names no other. -/
structure RoomFor (chunks : Table String StoredChunk) (c : SavedChunk) : Prop where
  free : ∀ hash row, chunks.lookup hash = some row → place row.path = place c.row.path →
    hash = c.hash
  stays : ∀ row, chunks.lookup c.hash = some row → place row.path = place c.row.path

/-- What a call may store: each row once, each chunk where there is room for it, and no other file
    that is new. -/
structure Storable (o : Outcome) (saved : String → Bytes)
    (chunks : Table String StoredChunk) : Prop where
  distinct : o.saved.Pairwise fun c c' => c.hash ≠ c'.hash
  room : ∀ c ∈ o.saved, RoomFor chunks c
  leftover : ∀ file ∈ o.leftover, Again saved chunks file

/-- The files of a call lie at different places. -/
structure Apart (o : Outcome) : Prop where
  saved : o.saved.Pairwise fun c c' => place c.row.path ≠ place c'.row.path
  leftover : ∀ file ∈ o.leftover, ∀ c ∈ o.saved, place c.row.path ≠ place file.1

section

variable {saved : String → Bytes} {chunks : Table String StoredChunk} {disk : Disk Bytes}

theorem cabinet_write (path : String) (bytes : Bytes) :
    cabinet saved (chunks, writeFile disk path bytes) =
      (cabinet saved (chunks, disk)).write (place path) bytes := by
  refine congrArg₂ Cabinet.mk rfl (funext fun p => ?_)
  by_cases hp : p = place path
  · subst hp
    rw [writeFile, AList.lookup_insert, Function.update_self]
  · rw [writeFile, AList.lookup_insert_ne hp, Function.update_of_ne hp]
    rfl

theorem cabinet_put (c : SavedChunk) :
    cabinet (Function.update saved c.hash c.bytes)
    (saveRow chunks c, writeFile disk c.row.path c.bytes) =
      (cabinet saved (chunks, disk)).put c.hash (place c.row.path) c.bytes := by
  refine congrArg₂ Cabinet.mk (funext fun k => ?_) (funext fun p => ?_)
  · by_cases hk : k = c.hash
    · subst hk
      rw [saveRow, Table.lookup_upsert, if_pos rfl, Function.update_self, Function.update_self]
      cases chunks.lookup c.hash <;> rfl
    · rw [saveRow, Table.lookup_upsert, if_neg hk, Function.update_of_ne hk,
        Function.update_of_ne hk]
      rfl
  · by_cases hp : p = place c.row.path
    · subst hp
      rw [writeFile, AList.lookup_insert, Function.update_self]
    · rw [writeFile, AList.lookup_insert_ne hp, Function.update_of_ne hp]
      rfl

/-- The rows that a call puts in the cabinet. -/
def filed (chunks : List SavedChunk) : List (String × Location × Bytes) :=
  chunks.map fun c => (c.hash, place c.row.path, c.bytes)

theorem cabinet_putAll (cs : List SavedChunk) :
    cabinet (note saved cs)
        (cs.foldl saveRow chunks, cs.foldl (fun disk c => writeFile disk c.row.path c.bytes) disk) =
      (cabinet saved (chunks, disk)).putAll (filed cs) := by
  induction cs generalizing saved chunks disk with
  | nil => rfl
  | cons c rest ih =>
    have hrest : cabinet (note (Function.update saved c.hash c.bytes) rest)
        (rest.foldl saveRow (saveRow chunks c),
          rest.foldl (fun disk c => writeFile disk c.row.path c.bytes)
            (writeFile disk c.row.path c.bytes)) = _ := ih
    rw [cabinet_put] at hrest
    exact hrest

theorem roomFor_iff {c : SavedChunk} :
    RoomFor chunks c ↔ (cabinet saved (chunks, disk)).Fits c.hash (place c.row.path) := by
  constructor
  · intro h
    refine ⟨fun hash bytes hrow => ?_, fun p bytes hrow => ?_⟩
    · obtain ⟨row, hlookup, hplace, -⟩ := row_of_cabinet hrow
      exact h.free hash row hlookup hplace
    · obtain ⟨row, hlookup, rfl, -⟩ := row_of_cabinet hrow
      exact h.stays row hlookup
  · intro h
    refine ⟨fun hash row hrow hplace => ?_, fun row hrow => ?_⟩
    · have hfiled : (cabinet saved (chunks, disk)).row hash = some (place row.path, saved hash) :=
        cabinet_row hrow
      rw [hplace] at hfiled
      exact h.free hash _ hfiled
    · exact h.stays _ _ (cabinet_row hrow)

theorem again_iff {file : String × Bytes} : Again saved chunks file ↔
    ∃ hash, (cabinet saved (chunks, disk)).row hash = some (place file.1, file.2) := by
  constructor
  · rintro ⟨hash, row, hrow, hplace, hbytes⟩
    refine ⟨hash, ?_⟩
    rw [← hplace, ← hbytes]
    exact cabinet_row hrow
  · rintro ⟨hash, hrow⟩
    obtain ⟨row, hlookup, hplace, hbytes⟩ := row_of_cabinet hrow
    exact ⟨hash, row, hlookup, hplace, hbytes⟩

theorem Again.write_intact {file : String × Bytes} (h : Again saved chunks file)
    (hintact : (cabinet saved (chunks, disk)).Intact) :
    (cabinet saved (chunks, writeFile disk file.1 file.2)).Intact := by
  rw [cabinet_write]
  exact (Cabinet.write_intact_iff hintact).mpr (again_iff.mp h)

/-- **The store stays intact** where a call stores what it may. -/
theorem Storable.intact {o : Outcome} (h : Storable o saved chunks) (hplaces : Apart o)
    (hintact : (cabinet saved (chunks, disk)).Intact) :
    (cabinet (note saved o.saved) (o.rows chunks, o.files disk)).Intact := by
  have hdistinct : (filed o.saved).Pairwise fun r r' => r.1 ≠ r'.1 ∧ r.2.1 ≠ r'.2.1 :=
    List.pairwise_map.mpr (h.distinct.and hplaces.saved)
  have hfits : ∀ r ∈ filed o.saved, (cabinet saved (chunks, disk)).Fits r.1 r.2.1 := by
    intro r hr
    obtain ⟨c, hc, rfl⟩ := List.mem_map.mp hr
    exact roomFor_iff.mp (h.room c hc)
  have hall := Cabinet.putAll_intact hintact hdistinct hfits
  unfold Outcome.files
  cases hleft : o.leftover with
  | none =>
    rw [← cabinet_putAll] at hall
    exact hall
  | some file =>
    have hmem : file ∈ o.leftover := hleft
    obtain ⟨hash, row, hrow, hplace, hbytes⟩ := h.leftover file hmem
    -- the row of the file is none of those that the call saves: that one would have moved
    have hother : ∀ r ∈ filed o.saved, r.1 ≠ hash := by
      intro r hr heq
      obtain ⟨c, hc, rfl⟩ := List.mem_map.mp hr
      obtain rfl : c.hash = hash := heq
      exact hplaces.leftover file hmem c hc (((h.room c hc).stays row hrow).symm.trans hplace)
    have hfiled : ((cabinet saved (chunks, disk)).putAll (filed o.saved)).row hash =
        some (place file.1, file.2) := by
      rw [Cabinet.putAll_row hother, ← hplace, ← hbytes]
      exact cabinet_row hrow
    have hwrite := (Cabinet.write_intact_iff hall).mpr ⟨hash, hfiled⟩
    rw [← cabinet_putAll, ← cabinet_write] at hwrite
    exact hwrite

/-- The files that a call writes. -/
def written (o : Outcome) : List (String × Bytes) :=
  (o.saved.map fun c => (c.row.path, c.bytes)) ++ o.leftover.toList

/-- **The store stays intact** where the files are there already, though no row is saved. -/
theorem written_intact {o : Outcome} (h : ∀ file ∈ written o, Again saved chunks file)
    (hintact : (cabinet saved (chunks, disk)).Intact) :
    (cabinet saved (chunks, o.files disk)).Intact := by
  have hfiles :
      o.files disk = (written o).foldl (fun disk file => writeFile disk file.1 file.2) disk := by
    unfold written Outcome.files
    rw [List.foldl_append, List.foldl_map]
    cases o.leftover <;> rfl
  rw [hfiles]
  clear hfiles
  generalize written o = files at h
  induction files generalizing disk with
  | nil => exact hintact
  | cons file rest ih =>
    have hstep := (h file List.mem_cons_self).write_intact hintact
    exact ih hstep fun file' hfile' => h file' (List.mem_cons_of_mem _ hfile')

end

theorem apart_nothing : Apart .nothing where
  saved := .nil
  leftover _ h := nomatch h

/-- **The files of a prepared file lie at different places.** -/
theorem prepare_apart (F : ChunkFormats) (c : PrepareCall) (path : String)
    (settings : StorageSettings) : Apart (c.outcome F path settings) := by
  have hname := contentHash_isName F.sha c.data
  unfold PrepareCall.outcome PrepareCall.outcomeOf
  simp only
  split
  · exact apart_nothing
  · exact
      { saved := storedChunks_apart F c _ hname _ _ _
        leftover := fun file hfile => (storedChunks_leftover F c _ hname _ _ _ hfile).2 }

/-! ## 4. The store in every run -/

/-- What an event does leaves the store intact. A file that is prepared in memory has no rows. -/
def StaysIntact (F : ChunkFormats) (t : Traced Key) : StoreEvent → Prop
  | .prepare c => ∀ path store, Passes t.device c path store →
      let o := c.outcome F path store.settings
      if path = MEMORY then ∀ file ∈ written o, Again t.saved t.device.store.chunks file
      else Cleans c.cleanup store.chunks ∧
        Storable o t.saved (cleanupExpiredStorage c.cleanup (store.chunks, t.device.disk)).1
  | .receive a => Storable (a.outcome F t.device) t.saved t.device.store.chunks
  | .list c => ∀ path store, t.device.openStore c.openFault = .ok (path, store) → path ≠ MEMORY →
      Cleans c.cleanup store.chunks

section

variable {F : ChunkFormats} {t : Traced Key}

theorem prepare_intact {c : PrepareCall} (h : (cabinet t.saved t.parts).Intact)
    (hcond : StaysIntact F t (.prepare c)) :
    (cabinet (note t.saved (StoreEvent.saves F t.device (.prepare c)))
      ((prepareEncryptedFile F t.device c).2.store.chunks,
        (prepareEncryptedFile F t.device c).2.disk)).Intact := by
  unfold StoreEvent.saves
  simp only
  cases hpassed : c.passed t.device with
  | none =>
    have hsame : (prepareEncryptedFile F t.device c).2 = t.device := by
      rcases prepare_cases F t.device c with heq | ⟨path, store, manifests, hpasses, -⟩
      · exact heq
      · rw [hpasses.passed] at hpassed
        cases hpassed
    rw [hsame]
    exact h
  | some opened =>
    obtain ⟨path, store⟩ := opened
    have hpasses := passes_of_passed hpassed
    replace hcond := hcond path store hpasses
    obtain ⟨manifests, hstored⟩ :=
      storeFile_outcome F t.device c (splitChunks c.data DEFAULT_CHUNK_SIZE) path store
    rw [← hpasses.prepare] at hstored
    rw [hstored]
    simp only at hcond ⊢
    by_cases hpath : path = MEMORY
    · subst hpath
      rw [if_pos rfl] at hcond
      rw [if_pos rfl, close_memory, openStore_memory hpasses.opened, cleanup_empty]
      exact written_intact hcond h
    · rw [if_neg hpath] at hcond
      rw [if_neg hpath, close_onDisk hpath]
      obtain ⟨hcleans, hstorable⟩ := hcond
      obtain rfl := openStore_onDisk hpasses.opened hpath
      exact hstorable.intact (prepare_apart F c path _) (cleanup_intact h hcleans)

/-- **A request leaves the store intact just when** it stores what it may. -/
theorem receive_intact_iff {a : ChunkArrival} (h : (cabinet t.saved t.parts).Intact) :
    (cabinet (note t.saved (StoreEvent.saves F t.device (.receive a)))
      ((receiveChunk F t.device a).store.chunks, (receiveChunk F t.device a).disk)).Intact ↔
        StaysIntact F t (.receive a) := by
  obtain ⟨loop, heq⟩ := receive_outcome F t.device a
  rw [heq]
  unfold StaysIntact StoreEvent.saves
  simp only
  rcases receive_shape F t.device a with ho | ⟨file, ho⟩ | ⟨c, ho⟩ <;> rw [ho]
  · refine iff_of_true h ⟨.nil, fun _ hc => (nomatch hc), fun _ hfile => nomatch hfile⟩
  · have hfiled : cabinet (note t.saved [])
        (t.device.store.chunks, writeFile t.device.disk file.1 file.2) = _ :=
          cabinet_write file.1 file.2
    refine Iff.trans (Eq.to_iff (congrArg Cabinet.Intact hfiled))
      ((Cabinet.write_intact_iff h).trans ?_)
    refine again_iff.symm.trans ⟨fun hagain => ?_, fun hstorable => hstorable.leftover file rfl⟩
    refine ⟨.nil, fun _ hc => (nomatch hc), fun file' hfile' => ?_⟩
    cases hfile'
    exact hagain
  · refine Iff.trans (Eq.to_iff (congrArg Cabinet.Intact (cabinet_put c))) ?_
    refine (Cabinet.put_intact_iff h).trans ?_
    refine roomFor_iff.symm.trans ⟨fun hroom => ?_, fun hstorable => ?_⟩
    · refine ⟨List.pairwise_singleton _ _, fun c' hc' => ?_, fun _ hfile => nomatch hfile⟩
      rw [List.mem_singleton.mp hc']
      exact hroom
    · exact hstorable.room c (List.mem_singleton_self c)

theorem list_intact {c : ListCall} (h : (cabinet t.saved t.parts).Intact)
    (hcond : StaysIntact F t (.list c)) :
    (cabinet t.saved
      ((listStoredChunks t.device c).2.store.chunks,
        (listStoredChunks t.device c).2.disk)).Intact := by
  rcases list_cases t.device c with heq | ⟨path, store, hopen, heq⟩
  · rw [heq]
    exact h
  · rw [heq]
    by_cases hpath : path = MEMORY
    · subst hpath
      rw [close_memory, openStore_memory hopen, cleanup_empty]
      exact h
    · have hcleans := hcond path store hopen hpath
      obtain rfl := openStore_onDisk hopen hpath
      rw [close_onDisk hpath]
      exact cleanup_intact h hcleans

end

/-- A cleanup that leaves no file of an expired chunk removes just these files. -/
def CleansUp (t : Traced Key) : Prop :=
  ∀ c, Thorough c t.device.store.chunks → ∀ hash row, t.device.store.chunks.lookup hash = some row →
    ((cleanupExpiredStorage c t.parts).2.lookup (place row.path) = none ↔
    expired c.nowMs row = true)

/-- **In an intact store the cleanup removes the files of the expired chunks**: no other row has
    them. -/
theorem Intact.cleansUp {t : Traced Key} (h : Intact t) : CleansUp t := by
  intro c hc hash row hrow
  obtain ⟨nowMs, hnow⟩ := exists_unexpired row
  have hfile : t.device.disk.lookup (place row.path) = some (t.saved hash) :=
    h.kept nowMs hash row hrow hnow
  refine (cleanup_lookup hc t.device.disk).trans
    ⟨?_, fun hexpired => .inr ⟨hash, row, hrow, hexpired, rfl⟩⟩
  rintro (hnone | ⟨hash', row', hrow', hexpired, hplace⟩)
  · rw [hfile] at hnone
    cases hnone
  · obtain rfl := h.apart hash' hash row' row hrow' hrow hplace
    rw [hrow] at hrow'
    cases hrow'
    exact hexpired

/-- **The store stays intact in every run** of which each step keeps to `StaysIntact`. -/
theorem intact_kept {F : ChunkFormats} {t : Traced Key}
    (h : Reach Intact (Guarded (StaysIntact F) (happens F)) t) : Intact t ∧ CleansUp t := by
  have hintact : Intact t := by
    refine h.inv (fun t ht => ht) fun t e t' ht hstep => ?_
    obtain ⟨hcond, rfl⟩ := hstep
    have hfiled := (intact_iff t).mp ht
    refine (intact_iff _).mpr ?_
    cases e with
    | prepare c => exact prepare_intact hfiled hcond
    | receive a => exact (receive_intact_iff hfiled).mpr hcond
    | list c => exact list_intact hfiled hcond
  exact ⟨hintact, hintact.cleansUp⟩

/-! ## 5. Two chunks of one transfer -/

/-- The device before anything is stored. -/
def nothingStored : Traced Unit := ⟨emptyDevice, fun _ => []⟩

theorem nothingStored_intact : Intact nothingStored where
  kept _ _ _ h := nomatch h
  apart _ _ _ _ h := nomatch h
  referenced _ _ h := nomatch h

/-- The device after an event. -/
def Traced.after (t : Traced Unit) (e : StoreEvent) : Traced Unit :=
  { device := e.run sampleFormats t.device, saved := note t.saved (e.saves sampleFormats t.device) }

/-- A chunk arrives. -/
def oneChunk : Traced Unit := nothingStored.after (.receive (zeros 1))

/-- The chunks are listed, when the first one has long expired. -/
def lateList : ListCall where
  openFault := none
  cleanup :=
    { nowMs := 700000000, selectFault := none, removes := fun _ => true, deletes := fun _ => true }
  listFault := none

/-- A chunk is stored, and removed when it has expired. -/
theorem intact_kept_small :
    (Intact (oneChunk.after (.list lateList)) ∧ CleansUp (oneChunk.after (.list lateList))) ∧
      oneChunk.device.disk.keys.length = 1 ∧
      (oneChunk.after (.list lateList)).device.disk.keys = [] := by
  have houtcome : (zeros 1).outcome sampleFormats emptyDevice =
      ⟨[(zeros 1).saves samplePath emptyDevice.store.settings], none⟩ := rfl
  have hreceive : StaysIntact sampleFormats nothingStored (.receive (zeros 1)) := by
    show Storable ((zeros 1).outcome sampleFormats emptyDevice) _ _
    rw [houtcome]
    exact
      { distinct := List.pairwise_singleton _ _
        room := fun _ _ => ⟨fun _ _ h => (nomatch h), fun _ h => nomatch h⟩
        leftover := fun _ h => nomatch h }
  have hlist : StaysIntact sampleFormats oneChunk (.list lateList) := fun _ _ _ _ _ _ _ _ _ => rfl
  have hrun : Reach Intact (Guarded (StaysIntact sampleFormats) (happens sampleFormats))
      (oneChunk.after (.list lateList)) :=
    .step _ _ _ (.step _ _ _ (.start _ nothingStored_intact) ⟨hreceive, rfl⟩) ⟨hlist, rfl⟩
  exact ⟨intact_kept hrun, rfl, rfl⟩

/-- Then a chunk arrives under the same transfer and index, with other bytes. -/
def twoChunks : Traced Unit := oneChunk.after (.receive (zeros 2))

/-- **Two chunks under one transfer and index**: the row of the first one has the bytes of the
    second. -/
theorem same_index_overwrites : Reach (fun t => t = nothingStored)
    (happens sampleFormats) twoChunks ∧
    ¬ Intact twoChunks := by
  have hfirst : happens sampleFormats nothingStored (.receive (zeros 1)) oneChunk := rfl
  have hsecond : happens sampleFormats oneChunk (.receive (zeros 2)) twoChunks := rfl
  refine ⟨.step _ _ _ (.step _ _ _ (.start _ rfl) hfirst) hsecond, fun h => ?_⟩
  have hrow : twoChunks.device.store.chunks.lookup (contentHash sizeSha [0]) =
      some ((zeros 1).saves samplePath emptyDevice.store.settings).row := rfl
  have hkept := h.kept 0 _ _ hrow rfl
  have hfile :
    twoChunks.device.disk.get ((zeros 1).saves samplePath emptyDevice.store.settings).row.path =
      some [0, 0] := rfl
  have hsaved : twoChunks.saved (contentHash sizeSha [0]) = [0] := by decide
  rw [hfile, hsaved] at hkept
  cases hkept

end AlterChat.ChunkIntegrity
