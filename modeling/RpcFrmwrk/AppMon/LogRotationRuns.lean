import RpcFrmwrk.AppMon.LogRotation
import RpcFrmwrk.Library.Threads

/-! No record of a log is lost in a run whose steps all keep the records. Owns where the records are
while a rotation has a copy in hand; which record is whose while appends run; `keeps_of_fits`. -/

namespace RpcFrmwrk.AppMon

open RpcFrmwrk.Library List Function

variable {size : Nat} {copy : LogFile} {header : LogHeader} {record : LogRecord}
variable {task put : LogTask} {number : Nat}

variable {names moved : Nat → Option Nat} {content other : Nat → List LogRecord} {number inode : Nat}

theorem olderRecords_below (same : ∀ lower, lower ≤ number → moved lower = names lower) :
    olderRecords moved content number = olderRecords names content number := by
  induction number with
  | zero => rfl
  | succ number ih =>
    rw [olderRecords, olderRecords, same _ (Nat.le_refl _),
      ih fun lower bound => same lower (Nat.le_succ_of_le bound)]

theorem olderRecords_above (same : ∀ higher, number < higher → moved higher = names higher)
    (below : olderRecords moved content number = olderRecords names content number) {last : Nat}
    (bound : number ≤ last) :
    olderRecords moved content last = olderRecords names content last := by
  induction bound with
  | refl => exact below
  | step bound ih =>
    rw [olderRecords, olderRecords, same _ (Nat.lt_succ_of_le bound), ih]

theorem olderRecords_rename (found : names (number + 1) = some inode)
    (free : names (number + 2) = none) {last : Nat}
    (bound : number + 2 ≤ last) :
    olderRecords (update (update names (number + 1) none) (number + 2) (some inode)) content last =
      olderRecords names content last := by
  refine olderRecords_above (fun higher above => ?_) ?_ bound
  · rw [update_of_ne (by omega), update_of_ne (by omega)]
  · have lower : olderRecords (update (update names (number + 1) none) (number + 2) (some inode))
        content number = olderRecords names content number := by
      refine olderRecords_below fun lower below => ?_
      rw [update_of_ne (by omega), update_of_ne (by omega)]
    rw [olderRecords, olderRecords, olderRecords, olderRecords, lower, update_self,
      update_of_ne (by omega), update_self, found, free]
    rfl

theorem olderRecords_create (free : names 1 = none)
    (same : ∀ named found, names named = some found → other found = content found) (last : Nat) :
    olderRecords (update names 1 (some inode)) other (last + 1) =
      olderRecords names content (last + 1) ++ other inode := by
  induction last with
  | zero =>
    rw [olderRecords, olderRecords, olderRecords, olderRecords, update_self, free]
    exact append_nil _
  | succ last ih =>
    have named : (names (last + 2)).elim [] other = (names (last + 2)).elim [] content := by
      cases found : names (last + 2) with
      | none => rfl
      | some file => exact same _ _ found
    rw [olderRecords, ih, update_of_ne (by omega), named, ← append_assoc]
    rfl

/-! ### Rotations -/

def LogTask.pending : LogTask → List LogRecord
  | .restarting copy => copy.records.reduceOption
  | .creating copy => copy.records.reduceOption
  | _ => []

def LogTask.intoFile (task : LogTask) (inode : Nat) : List LogRecord :=
  match task with
  | .filling copy target => if target = inode then copy.records.reduceOption else []
  | _ => []

theorem LogTask.pending_of_carried (nothing : task.carried = []) : task.pending = [] := by
  cases task <;> first | rfl | (simp only [carried] at nothing; simp only [pending, nothing]; rfl)

theorem LogTask.intoFile_of_carried (nothing : task.carried = []) (inode : Nat) : task.intoFile inode = [] := by
  cases task <;> first | rfl | skip
  case filling copy target =>
    simp only [carried] at nothing
    simp only [intoFile, nothing]
    exact ite_self _

theorem LogTask.intoFile_of_target (differs : task.target ≠ some inode) : task.intoFile inode = [] := by
  cases task <;> first | rfl | skip
  case filling copy target => exact if_neg fun same => differs (congrArg some same)

def LogTask.Within : LogTask → Prop
  | .finding number => 0 < number ∧ number < maxLogFiles
  | .moving number => 0 < number ∧ number < maxLogFiles
  | .creating copy => copy.records ≠ []
  | .filling copy _ => copy.records ≠ []
  | _ => True

variable {store next : LogStore} {thread : Nat} {task holder : LogTask}

/-- One thread may have a copy in hand. With it, the files have what was written. -/
structure LogStore.Held (store : LogStore) (thread : Nat) (holder : LogTask) : Prop where
  is : (store.tasks[thread]?).getD .idle = holder
  alone : ∀ (other : Nat) (task : LogTask), other ≠ thread → store.tasks[other]? = some task → task.carried = []
  whole : store.dropped ++ (olderRecords store.names (fun inode => store.recordsOf inode ++ holder.intoFile inode)
    maxLogFiles ++ (holder.pending ++ store.first.records.reduceOption)) = store.writes

/-- What holds of the files. -/
structure LogStore.Files (store : LogStore) : Prop where
  named : ∀ number inode, store.names number = some inode → inode < store.inodes
  within : ∀ (thread : Nat) (task : LogTask), store.tasks[thread]? = some task → task.Within
  unwritten : ∀ (thread : Nat) (copy : LogFile) (inode : Nat), store.tasks[thread]? = some (LogTask.filling copy inode) →
    inode < store.inodes ∧ store.files inode = none
  held : ∃ thread holder, store.Held thread holder

theorem LogStore.Files.congr (files : store.Files) (names : next.names = store.names)
    (contents : next.files = store.files) (inodes : next.inodes = store.inodes)
    (tasks : next.tasks = store.tasks)
    (dropped : next.dropped = store.dropped) (writes : next.writes = store.writes)
    (first : next.first.records.reduceOption = store.first.records.reduceOption) : next.Files := by
  obtain ⟨thread, holder, held⟩ := files.held
  refine ⟨names ▸ inodes ▸ files.named, tasks ▸ files.within, tasks ▸ contents ▸ inodes ▸ files.unwritten,
    thread, holder, tasks ▸ held.is, tasks ▸ held.alone, ?_⟩
  have whole := held.whole
  simp only [LogStore.recordsOf] at whole ⊢
  rw [names, contents, dropped, writes, first, whole]

theorem LogStore.stored_of_carried (nothing : holder.carried = []) :
    olderRecords store.names (fun inode => store.recordsOf inode ++ holder.intoFile inode) maxLogFiles ++
      (holder.pending ++ store.first.records.reduceOption) = store.stored := by
  have same : (fun inode => store.recordsOf inode ++ holder.intoFile inode) = store.recordsOf :=
    funext fun inode => by rw [holder.intoFile_of_carried nothing, append_nil]
  rw [same, holder.pending_of_carried nothing, nil_append]
  rfl

theorem LogStore.Files.goto (files : store.Files) (is : store.tasks[thread]? = some task)
    (nothing : task.carried = []) (carries : put.carried = []) (within : put.Within) :
    (store.goto thread put).Files where
  named := files.named
  within := by
    intro other found at?
    rcases task_set at? with ⟨_, rfl⟩ | ⟨_, old⟩
    · exact within
    · exact files.within other found old
  unwritten := by
    intro other copy inode at?
    rcases task_set at? with ⟨_, rfl⟩ | ⟨_, old⟩
    · exact absurd carries within
    · exact files.unwritten other copy inode old
  held := by
    obtain ⟨owner, holder, held⟩ := files.held
    by_cases same : owner = thread
    · have moved : holder = task := by rw [← held.is, same, is]; rfl
      refine ⟨thread, put, ?_, ?_, ?_⟩
      · show ((store.tasks.set thread put)[thread]?).getD .idle = put
        rw [List.getElem?_set_self (List.getElem?_eq_some_iff.1 is).1]
        rfl
      · intro other found differs at?
        rcases task_set at? with ⟨equal, _⟩ | ⟨_, old⟩
        · exact absurd equal differs
        · exact held.alone other found (same ▸ differs) old
      · have whole := held.whole
        rw [LogStore.stored_of_carried (moved ▸ nothing)] at whole
        rw [LogStore.stored_of_carried carries]
        exact whole
    · refine ⟨owner, holder, ?_, ?_, held.whole⟩
      · show ((store.tasks.set thread put)[owner]?).getD .idle = holder
        rw [List.getElem?_set_ne fun equal => same equal.symm]
        exact held.is
      · intro other found differs at?
        rcases task_set at? with ⟨_, rfl⟩ | ⟨_, old⟩
        · exact carries
        · exact held.alone other found differs old

theorem LogStore.Held.eq_of_carried {owner : Nat} (held : store.Held owner holder)
    (is : store.tasks[thread]? = some task)
    (carries : task.carried ≠ []) : owner = thread ∧ holder = task := by
  have same : owner = thread :=
    Classical.byContradiction fun differs => carries (held.alone thread task (fun equal => differs equal.symm) is)
  refine ⟨same, ?_⟩
  rw [← held.is, same, is]
  rfl

theorem LogStore.Held.alone_goto {owner : Nat} (held : store.Held owner holder) :
    ∀ (other : Nat) (task : LogTask), other ≠ owner → (store.tasks.set owner put)[other]? = some task →
      task.carried = [] := by
  intro other found differs at?
  rcases task_set at? with ⟨equal, _⟩ | ⟨_, old⟩
  · exact absurd equal differs
  · exact held.alone other found differs old

theorem reduceOption_writeAt {records : List (Option LogRecord)} (behind : records.length ≤ size)
    (record : LogRecord) :
    (writeAt none records size [some record]).reduceOption = records.reduceOption ++ [record] := by
  have filled : (records ++ List.replicate (size - records.length) none).length = size := by
    rw [length_append, length_replicate]
    omega
  rw [writeAt, splice, take_of_length_le (Nat.le_of_eq filled), drop_of_length_le (by rw [filled]; simp),
    append_nil, reduceOption_append, reduceOption_append, reduceOption_replicate_none,
    append_nil]
  rfl

theorem reduceOption_cutRecords {records : List (Option LogRecord)}
    (behind : records.length ≤ size) :
    (cutRecords records size).reduceOption = records.reduceOption := by
  rw [cutRecords, take_of_length_le behind, reduceOption_append, reduceOption_replicate_none, append_nil]

theorem LogStore.Files.write (files : store.Files) (behind : store.first.records.length ≤ size)
    (record : LogRecord) : (store.write size (some record)).Files where
  named := files.named
  within := files.within
  unwritten := files.unwritten
  held := by
    obtain ⟨owner, holder, held⟩ := files.held
    refine ⟨owner, holder, held.is, held.alone, ?_⟩
    show store.dropped ++ (_ ++ (_ ++ (writeAt none store.first.records size [some record]).reduceOption)) =
      store.writes ++ [record]
    rw [reduceOption_writeAt behind, ← held.whole]
    simp only [append_assoc]
    rfl

theorem LogStore.Files.removeLast (files : store.Files)
    (safe : ∀ task ∈ store.tasks, task.target = none ∨ task.target ≠ store.names maxLogFiles) :
    store.removeLast.Files := by
  unfold LogStore.removeLast
  cases last : store.names maxLogFiles with
  | none => exact files
  | some inode =>
    obtain ⟨owner, holder, held⟩ := files.held
    have nothing : holder.intoFile inode = [] := by
      refine LogTask.intoFile_of_target fun target => ?_
      cases at? : store.tasks[owner]? with
      | none =>
        have idle := held.is
        rw [at?] at idle
        rw [← idle] at target
        cases target
      | some task =>
        have same : task = holder := by rw [← held.is, at?]; rfl
        rcases safe task (mem_of_getElem? at?) with free | differs
        · rw [same, target] at free
          cases free
        · exact differs (by rw [same, target, last])
    refine ⟨fun number file found => ?_, files.within, files.unwritten, owner, holder, held.is, held.alone, ?_⟩
    · by_cases same : number = maxLogFiles
      · rw [same] at found
        dsimp only at found
        rw [update_self] at found
        cases found
      · dsimp only at found
        rw [update_of_ne same] at found
        exact files.named number file found
    · have below : olderRecords (update store.names maxLogFiles none)
          (fun inode => store.recordsOf inode ++ holder.intoFile inode) 8 =
          olderRecords store.names (fun inode => store.recordsOf inode ++ holder.intoFile inode) 8 :=
        olderRecords_below fun lower bound => update_of_ne (Nat.ne_of_lt (Nat.lt_succ_of_le bound)) _ _
      have whole : store.dropped ++ (((store.names maxLogFiles).elim []
          (fun inode => store.recordsOf inode ++ holder.intoFile inode) ++ olderRecords store.names
          (fun inode => store.recordsOf inode ++ holder.intoFile inode) 8) ++ _) = store.writes := held.whole
      rw [last] at whole
      show (store.dropped ++ store.recordsOf inode) ++ (olderRecords (update store.names maxLogFiles none)
        (fun inode => store.recordsOf inode ++ holder.intoFile inode) (8 + 1) ++ _) = store.writes
      have removed : update store.names maxLogFiles none (8 + 1) = none := update_self _ _ _
      rw [olderRecords, below, removed, ← whole]
      simp only [Option.elim, nothing, append_nil, append_assoc, nil_append]

theorem LogStore.Files.rename (files : store.Files) {inode : Nat}
    (found : store.names number = some inode)
    (free : store.names (number + 1) = none) (within : 0 < number ∧ number < maxLogFiles) :
    (store.rename number inode).Files := by
  obtain ⟨owner, holder, held⟩ := files.held
  refine ⟨fun other file is => ?_, files.within, files.unwritten, owner, holder, held.is, held.alone, ?_⟩
  · simp only [LogStore.rename, update_apply] at is
    split at is
    · cases is
      exact files.named number inode found
    · split at is
      · cases is
      · exact files.named other file is
  · obtain ⟨lower, rfl⟩ := Nat.exists_eq_succ_of_ne_zero (Nat.ne_of_gt within.1)
    have whole := held.whole
    show store.dropped ++ (olderRecords (update (update store.names (lower + 1) none) (lower + 2)
      (some inode)) (fun inode => store.recordsOf inode ++ holder.intoFile inode) maxLogFiles ++ _) = store.writes
    rw [olderRecords_rename found free within.2]
    exact whole

theorem LogStore.Files.cut (files : store.Files)
    (is : store.tasks[thread]? = some (.cutting copy)) (same : copy.records = store.first.records)
    (quiet : store.Quiet) : ((store.cut 0).goto thread (.restarting copy)).Files where
  named := files.named
  within := by
    intro other found at?
    rcases task_set at? with ⟨_, rfl⟩ | ⟨_, old⟩
    · trivial
    · exact files.within other found old
  unwritten := by
    intro other copy inode at?
    rcases task_set at? with ⟨_, equal⟩ | ⟨_, old⟩
    · cases equal
    · exact files.unwritten other copy inode old
  held := by
    obtain ⟨owner, holder, held⟩ := files.held
    have nothing : holder.carried = [] := by
      rw [← held.is]
      cases at? : store.tasks[owner]? with
      | none => rfl
      | some task => exact quiet task (mem_of_getElem? at?)
    have whole := held.whole
    rw [LogStore.stored_of_carried nothing] at whole
    refine ⟨thread, .restarting copy, ?_, ?_, ?_⟩
    · show ((store.tasks.set thread (.restarting copy))[thread]?).getD .idle = _
      rw [List.getElem?_set_self (List.getElem?_eq_some_iff.1 is).1]
      rfl
    · intro other found differs at?
      rcases task_set at? with ⟨equal, _⟩ | ⟨_, old⟩
      · exact absurd equal differs
      · exact quiet found (mem_of_getElem? old)
    · have content : (fun inode => store.recordsOf inode ++ (LogTask.restarting copy).intoFile inode) =
          store.recordsOf := funext fun inode => append_nil _
      have empty : (cutRecords store.first.records 0).reduceOption = [] := by
        rw [cutRecords, Nat.zero_sub, take_zero]
        rfl
      show store.dropped ++ (olderRecords store.names (fun inode => store.recordsOf inode ++
        (LogTask.restarting copy).intoFile inode) maxLogFiles ++ (copy.records.reduceOption ++
          (cutRecords store.first.records 0).reduceOption)) = store.writes
      rw [content, empty, append_nil, same]
      exact whole

theorem LogStore.Files.restart (files : store.Files)
    (is : store.tasks[thread]? = some (.restarting copy)) (some : copy.records ≠ []) :
    ((store.setHeader header).goto thread (.creating copy)).Files where
  named := files.named
  within := by
    intro other found at?
    rcases task_set at? with ⟨_, rfl⟩ | ⟨_, old⟩
    · exact some
    · exact files.within other found old
  unwritten := by
    intro other copy inode at?
    rcases task_set at? with ⟨_, equal⟩ | ⟨_, old⟩
    · cases equal
    · exact files.unwritten other copy inode old
  held := by
    obtain ⟨owner, holder, held⟩ := files.held
    obtain ⟨rfl, rfl⟩ := held.eq_of_carried is some
    refine ⟨owner, .creating copy, ?_, held.alone_goto, held.whole⟩
    show ((store.tasks.set owner (.creating copy))[owner]?).getD .idle = _
    rw [List.getElem?_set_self (List.getElem?_eq_some_iff.1 is).1]
    rfl

theorem LogStore.Files.create (files : store.Files)
    (is : store.tasks[thread]? = some (.creating copy)) (free : store.names 1 = none) :
    (store.create.goto thread (.filling copy store.inodes)).Files where
  named := by
    intro number inode found
    replace found : update store.names 1 (some store.inodes) number = some inode := found
    rw [update_apply] at found
    split at found
    · cases found
      exact Nat.lt_succ_self _
    · exact Nat.lt_succ_of_lt (files.named number inode found)
  within := by
    intro other found at?
    rcases task_set at? with ⟨_, rfl⟩ | ⟨_, old⟩
    · show copy.records ≠ []
      exact files.within thread (.creating copy) is
    · exact files.within other found old
  unwritten := by
    intro other filled inode at?
    show inode < store.inodes + 1 ∧ update store.files store.inodes none inode = none
    rcases task_set at? with ⟨_, equal⟩ | ⟨_, old⟩
    · cases equal
      exact ⟨Nat.lt_succ_self _, update_self _ _ _⟩
    · obtain ⟨below, empty⟩ := files.unwritten other filled inode old
      exact ⟨Nat.lt_succ_of_lt below, by rw [update_of_ne (Nat.ne_of_lt below), empty]⟩
  held := by
    obtain ⟨owner, holder, held⟩ := files.held
    obtain ⟨rfl, rfl⟩ := held.eq_of_carried is (files.within _ _ is)
    refine ⟨owner, .filling copy store.inodes, ?_, held.alone_goto, ?_⟩
    · show ((store.tasks.set owner _)[owner]?).getD .idle = _
      rw [List.getElem?_set_self (List.getElem?_eq_some_iff.1 is).1]
      rfl
    · have same : ∀ number inode, store.names number = some inode →
          store.create.recordsOf inode ++ (LogTask.filling copy store.inodes).intoFile inode =
            store.recordsOf inode ++ (LogTask.creating copy).intoFile inode := by
        intro number inode found
        have other := Nat.ne_of_lt (files.named number inode found)
        simp only [LogStore.recordsOf, LogStore.create, LogTask.intoFile]
        rw [update_of_ne other, if_neg fun equal => other equal.symm]
      have filled : store.create.recordsOf store.inodes ++ (LogTask.filling copy store.inodes).intoFile store.inodes =
          copy.records.reduceOption := by
        show ((update store.files store.inodes none store.inodes).elim [] LogFile.records).reduceOption ++
          (if store.inodes = store.inodes then copy.records.reduceOption else []) = copy.records.reduceOption
        rw [update_self, if_pos rfl]
        rfl
      have whole := held.whole
      show store.dropped ++ (olderRecords (update store.names 1 (some store.inodes)) (fun inode =>
        store.create.recordsOf inode ++ (LogTask.filling copy store.inodes).intoFile inode) (8 + 1) ++
          ([] ++ store.first.records.reduceOption)) = store.writes
      rw [olderRecords_create free same, filled, ← whole]
      simp only [append_assoc, nil_append]
      rfl

theorem LogStore.Files.fill (files : store.Files) {inode : Nat}
    (is : store.tasks[thread]? = some (.filling copy inode)) :
    ((store.fill inode copy).goto thread .idle).Files where
  named := files.named
  within := by
    intro other found at?
    rcases task_set at? with ⟨_, rfl⟩ | ⟨_, old⟩
    · trivial
    · exact files.within other found old
  unwritten := by
    intro other filled target at?
    obtain ⟨owner, holder, held⟩ := files.held
    obtain ⟨rfl, rfl⟩ := held.eq_of_carried is (files.within _ _ is)
    rcases task_set at? with ⟨_, equal⟩ | ⟨differs, old⟩
    · cases equal
    · exact absurd (held.alone other _ differs old) (files.within other _ old)
  held := by
    obtain ⟨owner, holder, held⟩ := files.held
    obtain ⟨rfl, rfl⟩ := held.eq_of_carried is (files.within _ _ is)
    refine ⟨owner, .idle, ?_, held.alone_goto, ?_⟩
    · show ((store.tasks.set owner _)[owner]?).getD .idle = _
      rw [List.getElem?_set_self (List.getElem?_eq_some_iff.1 is).1]
      rfl
    · have same : (fun file => (store.fill inode copy).recordsOf file ++ LogTask.idle.intoFile file) =
          fun file => store.recordsOf file ++ (LogTask.filling copy inode).intoFile file := by
        refine funext fun file => ?_
        simp only [LogStore.recordsOf, LogStore.fill, LogTask.intoFile, append_nil]
        by_cases own : inode = file
        · rw [← own, update_self, if_pos rfl, (files.unwritten owner copy inode is).2]
          rfl
        · rw [update_of_ne fun equal => own equal.symm, if_neg own, append_nil]
      have whole := held.whole
      rw [← same] at whole
      exact whole

/-! ### Appends -/

def LogTask.unwritten : LogTask → Option LogRecord
  | .opening record => some record
  | .reading record => some record
  | .sizing record _ => some record
  | .writing record _ _ => some record
  | _ => none

/-- What holds of the calls of `AppendLog`. -/
structure LogStore.Calls (store : LogStore) : Prop where
  fresh : ∀ (thread : Nat) (task : LogTask) (record : LogRecord), store.tasks[thread]? = some task →
    task.unwritten = some record → record.call < store.calls ∧ record.call ∉ store.writes.map LogRecord.call
  apart : ∀ (left right : Nat) (one other : LogTask) (record same : LogRecord), store.tasks[left]? = some one →
    store.tasks[right]? = some other → one.unwritten = some record → other.unwritten = some same →
    record.call = same.call → left = right
  counted : ∀ (thread : Nat) (record : LogRecord) (header : LogHeader),
    store.tasks[thread]? = some (.counting record header true) → record ∈ store.writes
  appended : ∀ record ∈ store.appended, record ∈ store.writes
  below : ∀ record ∈ store.writes, record.call < store.calls
  nodup : (store.writes.map LogRecord.call).Nodup

theorem LogStore.Calls.congr (calls : store.Calls) (tasks : next.tasks = store.tasks)
    (count : next.calls = store.calls)
    (writes : next.writes = store.writes)
    (appended : next.appended = store.appended) : next.Calls :=
  ⟨tasks ▸ count ▸ writes ▸ calls.fresh, tasks ▸ calls.apart, tasks ▸ writes ▸ calls.counted,
    appended ▸ writes ▸ calls.appended, count ▸ writes ▸ calls.below, writes ▸ calls.nodup⟩

theorem LogStore.Calls.goto (calls : store.Calls) (is : store.tasks[thread]? = some task)
    (fewer : ∀ record, put.unwritten = some record → task.unwritten = some record)
    (noted : ∀ record header, put = .counting record header true → record ∈ store.writes) :
    (store.goto thread put).Calls where
  fresh := by
    intro other found record at? own
    rcases task_set at? with ⟨_, rfl⟩ | ⟨_, old⟩
    · exact calls.fresh thread task record is (fewer record own)
    · exact calls.fresh other found record old own
  apart := by
    intro left right one other record same atLeft atRight ownLeft ownRight equal
    rcases task_set atLeft with ⟨leftIs, rfl⟩ | ⟨leftOther, oldLeft⟩ <;>
      rcases task_set atRight with ⟨rightIs, rfl⟩ | ⟨rightOther, oldRight⟩
    · exact leftIs.trans rightIs.symm
    · exact leftIs.trans (calls.apart thread right task other record same is oldRight (fewer record ownLeft) ownRight equal)
    · exact (calls.apart left thread one task record same oldLeft is ownLeft (fewer same ownRight) equal).trans
        rightIs.symm
    · exact calls.apart left right one other record same oldLeft oldRight ownLeft ownRight equal
  counted := by
    intro other record header at?
    rcases task_set at? with ⟨_, equal⟩ | ⟨_, old⟩
    · exact noted record header equal.symm
    · exact calls.counted other record header old
  appended := calls.appended
  below := calls.below
  nodup := calls.nodup

theorem LogStore.Calls.append (calls : store.Calls) (time : Nat) (value : LogValue) :
    ({ store with calls := store.calls + 1 }.goto thread (.opening ⟨store.calls, time, value⟩)).Calls where
  fresh := by
    intro other found record at? own
    rcases task_set at? with ⟨_, rfl⟩ | ⟨_, old⟩
    · cases own
      refine ⟨Nat.lt_succ_self _, fun isIn => ?_⟩
      obtain ⟨written, member, same⟩ := mem_map.1 isIn
      exact Nat.lt_irrefl _ (same ▸ calls.below written member)
    · obtain ⟨below, unwritten⟩ := calls.fresh other found record old own
      exact ⟨Nat.lt_succ_of_lt below, unwritten⟩
  apart := by
    intro left right one other record same atLeft atRight ownLeft ownRight equal
    rcases task_set atLeft with ⟨leftIs, rfl⟩ | ⟨leftOther, oldLeft⟩ <;>
      rcases task_set atRight with ⟨rightIs, rfl⟩ | ⟨rightOther, oldRight⟩
    · exact leftIs.trans rightIs.symm
    · cases ownLeft
      exact absurd equal.symm (Nat.ne_of_lt (calls.fresh right other same oldRight ownRight).1)
    · cases ownRight
      exact absurd equal (Nat.ne_of_lt (calls.fresh left one record oldLeft ownLeft).1)
    · exact calls.apart left right one other record same oldLeft oldRight ownLeft ownRight equal
  counted := by
    intro other record header at?
    rcases task_set at? with ⟨_, equal⟩ | ⟨_, old⟩
    · cases equal
    · exact calls.counted other record header old
  appended := calls.appended
  below := fun record isIn => Nat.lt_succ_of_lt (calls.below record isIn)
  nodup := calls.nodup

theorem LogStore.Calls.write (calls : store.Calls)
    (is : store.tasks[thread]? = some (.writing record header size)) :
    ((store.write size (some record)).goto thread (.counting record header true)).Calls where
  fresh := by
    intro other found own at? isOwn
    show own.call < store.calls ∧ own.call ∉ (store.writes ++ [record]).map LogRecord.call
    rcases task_set at? with ⟨_, rfl⟩ | ⟨differs, old⟩
    · cases isOwn
    · obtain ⟨below, unwritten⟩ := calls.fresh other found own old isOwn
      refine ⟨below, fun isIn => ?_⟩
      rw [map_append, mem_append, map_singleton, mem_singleton] at isIn
      rcases isIn with isIn | same
      · exact unwritten isIn
      · exact differs (calls.apart other thread found _ own record old is isOwn rfl same)
  apart := by
    intro left right one other one' same atLeft atRight ownLeft ownRight equal
    rcases task_set atLeft with ⟨leftIs, rfl⟩ | ⟨leftOther, oldLeft⟩
    · cases ownLeft
    rcases task_set atRight with ⟨rightIs, rfl⟩ | ⟨rightOther, oldRight⟩
    · cases ownRight
    exact calls.apart left right one other one' same oldLeft oldRight ownLeft ownRight equal
  counted := by
    intro other counted header at?
    show counted ∈ store.writes ++ [record]
    rcases task_set at? with ⟨_, equal⟩ | ⟨_, old⟩
    · cases equal
      exact mem_append_right _ (mem_singleton.2 rfl)
    · exact mem_append_left _ (calls.counted other counted header old)
  appended := fun own isIn => mem_append_left _ (calls.appended own isIn)
  below := by
    exact forall_mem_append.2 ⟨calls.below, forall_mem_singleton.2 ((calls.fresh thread _ record is rfl).1)⟩
  nodup := by
    show ((store.writes ++ [record]).map LogRecord.call).Nodup
    rw [map_append]
    refine calls.nodup.append (nodup_singleton _) fun call isIn new => ?_
    rw [map_singleton, mem_singleton] at new
    exact (calls.fresh thread _ record is rfl).2 (new ▸ isIn)

/-- Where a thread without a copy may go on. -/
structure LogTask.Passes (old put : LogTask) : Prop where
  carries : put.carried = []
  within : put.Within
  fewer : ∀ record, put.unwritten = some record → old.unwritten = some record
  uncounted : ∀ record header, put ≠ .counting record header true

variable {old put other : LogTask}

theorem LogTask.Passes.ite (left : old.Passes put) (right : old.Passes other) (cond : Bool) :
    old.Passes (if cond = true then put else other) := by
  cases cond
  · exact right
  · exact left

theorem LogTask.passes_idle (old : LogTask) : old.Passes .idle :=
  ⟨rfl, trivial, fun _ own => (by cases own), fun _ _ same => (by cases same)⟩

theorem LogTask.passes_entering (old : LogTask) : old.Passes .entering :=
  ⟨rfl, trivial, fun _ own => (by cases own), fun _ _ same => (by cases same)⟩

theorem LogTask.passes_shift (old : LogTask) (bound : number < maxLogFiles) : old.Passes (.shift number) := by
  cases number with
  | zero => exact old.passes_entering
  | succ number =>
    exact ⟨rfl, ⟨Nat.succ_pos _, bound⟩, fun _ own => (by cases own), fun _ _ same => (by cases same)⟩

/-- The files have what was written, and what was appended was written. -/
structure LogStore.Sound (store : LogStore) : Prop where
  files : store.Files
  calls : store.Calls

theorem LogStore.Sound.goto (sound : store.Sound) (is : store.tasks[thread]? = some old)
    (nothing : old.carried = [])
    (passes : old.Passes put) : (store.goto thread put).Sound where
  files := sound.files.goto is nothing passes.carries passes.within
  calls := sound.calls.goto is passes.fewer fun record header same => absurd same (passes.uncounted record header)

variable {works : Bool}

theorem LogStore.Sound.write (sound : store.Sound)
    (is : store.tasks[thread]? = some (.writing record header size))
    (fits : LogTask.keeps store works (.writing record header size) = true)
    (moved : store.go thread works (.writing record header size) = some next) : next.Sound := by
  simp only [LogStore.go] at moved
  split at moved
  case isTrue goes =>
    rw [Bool.and_eq_true] at goes
    rw [goes.1] at fits
    obtain ⟨behind, room⟩ := of_decide_eq_true fits
    cases moved
    rw [fittingRecord, if_pos room]
    exact ⟨(sound.files.write behind record).goto is rfl rfl trivial, sound.calls.write is⟩
  case isFalse =>
    cases moved
    exact sound.goto is rfl ⟨rfl, trivial, fun _ own => (by cases own), fun _ _ same => (by cases same)⟩

theorem LogStore.Sound.undo (sound : store.Sound)
    (is : store.tasks[thread]? = some (.undoing record header size))
    (fits : LogTask.keeps store works (.undoing record header size) = true) :
    ((if works = true then store.cut size else store).goto thread (.counting record header false)).Sound := by
  have passes : (LogTask.undoing record header size).Passes (.counting record header false) :=
    ⟨rfl, trivial, fun _ own => (by cases own), fun _ _ same => (by cases same)⟩
  cases works with
  | false => exact sound.goto is rfl passes
  | true =>
    have cut : (store.cut size).Sound :=
      ⟨sound.files.congr rfl rfl rfl rfl rfl rfl (reduceOption_cutRecords (of_decide_eq_true fits)),
        sound.calls.congr rfl rfl rfl rfl⟩
    exact cut.goto is rfl passes

theorem LogStore.Sound.count (sound : store.Sound) {written : Bool}
    (is : store.tasks[thread]? = some (.counting record header written))
    (fits : LogTask.keeps store works (.counting record header written) = true)
    (moved : store.go thread works (.counting record header written) = some next) : next.Sound := by
  cases works with
  | false =>
    cases moved
    exact sound.goto is rfl (LogTask.passes_idle _)
  | true =>
    cases moved
    replace fits : written = true := fits
    have counted : ({ store.setHeader header.countUp with appended := store.appended ++ [record] } : LogStore).Sound := by
      refine ⟨sound.files.congr rfl rfl rfl rfl rfl rfl rfl, sound.calls.fresh, sound.calls.apart,
        sound.calls.counted, fun own isIn => ?_, sound.calls.below, sound.calls.nodup⟩
      rcases mem_append.1 isIn with old | new
      · exact sound.calls.appended own old
      · rw [mem_singleton.1 new]
        exact sound.calls.counted thread record header (fits ▸ is)
    exact counted.goto is rfl (LogTask.passes_idle _)

theorem LogStore.Sound.remove (sound : store.Sound) (is : store.tasks[thread]? = some .removing)
    (fits : LogTask.keeps store works .removing = true) :
    ((if works = true then store.removeLast else store).goto thread (.shift (maxLogFiles - 1))).Sound := by
  have passes : LogTask.removing.Passes (.shift (maxLogFiles - 1)) := LogTask.passes_shift _ (by decide)
  cases works with
  | false => exact sound.goto is rfl passes
  | true =>
    have same : store.removeLast.tasks = store.tasks ∧ store.removeLast.calls = store.calls ∧
        store.removeLast.writes = store.writes ∧ store.removeLast.appended = store.appended := by
      unfold LogStore.removeLast
      cases store.names maxLogFiles <;> exact ⟨rfl, rfl, rfl, rfl⟩
    have removed : store.removeLast.Sound :=
      ⟨sound.files.removeLast (of_decide_eq_true fits), sound.calls.congr same.1 same.2.1 same.2.2.1 same.2.2.2⟩
    exact removed.goto (same.1 ▸ is) rfl passes

theorem LogStore.Sound.rename (sound : store.Sound)
    (is : store.tasks[thread]? = some (.moving number))
    (fits : LogTask.keeps store works (.moving number) = true)
    (moved : store.go thread works (.moving number) = some next) : next.Sound := by
  have within : 0 < number ∧ number < maxLogFiles := sound.files.within thread _ is
  simp only [LogStore.go] at moved
  split at moved
  case h_1 =>
    cases moved
    exact sound.goto is rfl (LogTask.passes_entering _)
  case h_2 inode found =>
    cases works with
    | false =>
      cases moved
      exact sound.goto is rfl (LogTask.passes_entering _)
    | true =>
      cases moved
      have renamed : (store.rename number inode).Sound :=
        ⟨sound.files.rename found (Option.isNone_iff_eq_none.1 fits) within, sound.calls.congr rfl rfl rfl rfl⟩
      exact renamed.goto is rfl (LogTask.passes_shift _ (Nat.lt_of_le_of_lt (Nat.sub_le _ _) within.2))

theorem LogStore.Sound.setHeader (sound : store.Sound) (header : LogHeader) : (store.setHeader header).Sound :=
  ⟨sound.files.congr rfl rfl rfl rfl rfl rfl rfl, sound.calls.congr rfl rfl rfl rfl⟩

theorem LogStore.Sound.restart (sound : store.Sound)
    (is : store.tasks[thread]? = some (.restarting copy))
    (fits : LogTask.keeps store works (.restarting copy) = true)
    (moved : store.go thread works (.restarting copy) = some next) : next.Sound := by
  by_cases empty : copy.records = []
  · cases works with
    | false =>
      cases moved
      exact sound.goto is empty (LogTask.passes_idle _)
    | true =>
      cases moved
      rw [if_pos empty]
      exact (sound.setHeader _).goto is empty (LogTask.passes_idle _)
  · have goes : works = true := by
      rcases Bool.or_eq_true_iff.1 fits with goes | none
      · exact goes
      · exact absurd (of_decide_eq_true none) empty
    rw [goes] at moved
    cases moved
    rw [if_neg empty]
    have calls := (sound.setHeader { copy.header with counter := 0 }).calls
    refine ⟨sound.files.restart is empty, calls.goto is ?_ ?_⟩
    · intro record own
      cases own
    · intro record header same
      cases same

theorem LogStore.Sound.go (sound : store.Sound) (is : store.tasks[thread]? = some task)
    (fits : task.keeps store works = true)
    (moved : store.go thread works task = some next) : next.Sound := by
  cases task with
  | idle => cases moved
  | opening | reading | sizing =>
    cases moved
    refine sound.goto is rfl (LogTask.Passes.ite ?_ (LogTask.passes_idle _) _)
    exact ⟨rfl, trivial, fun _ own => own, fun _ _ same => (by cases same)⟩
  | writing record header size => exact sound.write is fits moved
  | undoing record header size =>
    cases moved
    exact sound.undo is fits
  | counting record header written => exact sound.count is fits moved
  | checking | entering | measuring | copying =>
    cases moved
    refine sound.goto is rfl (LogTask.Passes.ite ?_ (LogTask.passes_idle _) _)
    exact ⟨rfl, trivial, fun _ own => (by cases own), fun _ _ same => (by cases same)⟩
  | looking =>
    cases moved
    refine sound.goto is rfl (LogTask.Passes.ite ?_ (LogTask.passes_shift _ (by decide)) _)
    exact ⟨rfl, trivial, fun _ own => (by cases own), fun _ _ same => (by cases same)⟩
  | removing =>
    cases moved
    exact sound.remove is fits
  | finding number =>
    have within : 0 < number ∧ number < maxLogFiles := sound.files.within thread _ is
    cases moved
    refine sound.goto is rfl (LogTask.Passes.ite ?_
      (LogTask.passes_shift _ (Nat.lt_of_le_of_lt (Nat.sub_le _ _) within.2)) _)
    exact ⟨rfl, within, fun _ own => (by cases own), fun _ _ same => (by cases same)⟩
  | moving number => exact sound.rename is fits moved
  | cutting copy =>
    cases works with
    | false =>
      cases moved
      exact sound.goto is rfl (LogTask.passes_idle _)
    | true =>
      cases moved
      obtain ⟨same, quiet⟩ := of_decide_eq_true fits
      have calls : (store.cut 0).Calls := sound.calls.congr rfl rfl rfl rfl
      exact ⟨sound.files.cut is same quiet,
        calls.goto is (fun _ own => (by cases own)) fun _ _ same => (by cases same)⟩
  | restarting copy => exact sound.restart is fits moved
  | creating copy =>
    replace fits : (works && (store.names 1).isNone) = true := fits
    rw [LogStore.go, if_pos fits] at moved
    cases moved
    have free := Option.isNone_iff_eq_none.1 (Bool.and_eq_true_iff.1 fits).2
    have calls : store.create.Calls := sound.calls.congr rfl rfl rfl rfl
    exact ⟨sound.files.create is free,
      calls.goto is (fun _ own => (by cases own)) fun _ _ same => (by cases same)⟩
  | filling copy inode =>
    replace fits : works = true := fits
    rw [fits] at moved
    cases moved
    have calls : (store.fill inode copy).Calls := sound.calls.congr rfl rfl rfl rfl
    exact ⟨sound.files.fill is, calls.goto is (fun _ own => (by cases own)) fun _ _ same => (by cases same)⟩

theorem LogStore.Sound.step (sound : store.Sound) {move : LogMove} (fits : move.fits store = true)
    (moved : store.step move = some next) : next.Sound := by
  cases move with
  | append thread time value =>
    obtain ⟨idle, ⟨⟩⟩ := Option.ite_none_right_eq_some.1 moved
    have counted : ({ store with calls := store.calls + 1 } : LogStore).Files :=
      sound.files.congr rfl rfl rfl rfl rfl rfl rfl
    exact ⟨counted.goto idle rfl rfl trivial, sound.calls.append time value⟩
  | rotate | shift =>
    obtain ⟨idle, ⟨⟩⟩ := Option.ite_none_right_eq_some.1 moved
    exact sound.goto idle rfl ⟨rfl, trivial, fun _ own => (by cases own), fun _ _ same => (by cases same)⟩
  | go thread works =>
    obtain ⟨task, is, moved⟩ := Option.bind_eq_some_iff.1 moved
    replace fits : (store.tasks[thread]?).elim true (LogTask.keeps store works) = true := fits
    rw [is] at fits
    exact sound.go is fits moved

theorem sound_rotatedLog (layout : LogLayout) (threads : Nat) : (LogStore.start layout threads).Sound := by
  have idle : ∀ (thread : Nat) (task : LogTask), (List.replicate threads LogTask.idle)[thread]? = some task →
      task = .idle := by
    intro thread task is
    rw [List.getElem?_replicate] at is
    exact (Option.some.inj (Option.ite_none_right_eq_some.1 is).2).symm
  refine ⟨⟨fun _ _ never => (by cases never), fun thread task is => ?_, fun thread copy inode is => ?_,
      0, .idle, ?_, fun other task _ is => ?_, rfl⟩,
    ⟨fun thread task record is own => ?_, fun left right one other record same is _ own _ _ => ?_,
      fun thread record header is => ?_, fun _ never => (by cases never), fun _ never => (by cases never),
      nodup_nil⟩⟩
  · rw [idle thread task is]
    trivial
  · cases idle thread _ is
  · show ((List.replicate threads LogTask.idle)[0]?).getD .idle = .idle
    cases at? : (List.replicate threads LogTask.idle)[0]? with
    | none => rfl
    | some task => exact idle 0 task at?
  · rw [idle other task is]
    rfl
  · rw [idle thread task is] at own
    cases own
  · rw [idle left one is] at own
    cases own
  · cases idle thread _ is

/-- In every run whose steps all keep the records, with any number of threads, no record is lost: where no rotation has
a copy in hand, the files have all of them, in order. -/
theorem keeps_of_fits (layout : LogLayout) (threads : Nat) (store : LogStore)
    (reachable : ((rotatedLog layout threads).restrict fun store move => move.fits store = true).Reachable store)
    (quiet : store.Quiet) : store.Keeps := by
  have sound : store.Sound := by
    refine reachable.invariant (sound_rotatedLog layout threads) fun _ _ _ _ before moved => ?_
    obtain ⟨fits, moved⟩ := Machine.restrict_step.1 moved
    exact before.step fits moved
  obtain ⟨owner, holder, held⟩ := sound.files.held
  have nothing : holder.carried = [] := by
    rw [← held.is]
    cases at? : store.tasks[owner]? with
    | none => rfl
    | some task => exact quiet task (mem_of_getElem? at?)
  have ordered : store.dropped ++ store.stored = store.writes := by
    have whole := held.whole
    rw [LogStore.stored_of_carried nothing] at whole
    exact whole
  refine ⟨fun record isIn => ?_, ordered⟩
  rw [ordered]
  exact count_eq_one_of_mem (List.Nodup.of_map _ sound.calls.nodup) (sound.calls.appended record isIn)

def goOn (thread count : Nat) : List LogMove := List.replicate count (.go thread true)

/-- A record is appended while a rotation is in its loop, and a second one behind it. -/
theorem keeps_besideRotation :
    ∃ store : LogStore, store.appended = [⟨0, 8, ⟨.byte, 5⟩⟩, ⟨1, 9, ⟨.byte, 6⟩⟩] ∧ store.Keeps := by
  have ran : (((rotatedLog (.plain .byte) 2).restrict fun store move => move.fits store = true).run
      (LogStore.start (.plain .byte) 2)
      ([.shift 0] ++ goOn 0 5 ++ [.append 1 8 ⟨.byte, 5⟩] ++ goOn 1 5 ++ goOn 0 11 ++ [.append 1 9 ⟨.byte, 6⟩] ++
        goOn 1 5)).map (fun store => (store.appended, decide store.Quiet)) =
        some ([⟨0, 8, ⟨.byte, 5⟩⟩, ⟨1, 9, ⟨.byte, 6⟩⟩], true) := by decide +kernel
  obtain ⟨store, ran, same⟩ := Option.map_eq_some_iff.1 ran
  obtain ⟨appended, quiet⟩ := Prod.mk.inj same
  exact ⟨store, appended, keeps_of_fits _ _ store (Machine.Reachable.start.run ran) (of_decide_eq_true quiet)⟩

/-- One thread appends a record and rotates, twice; in the second rotation the rename of `-1` fails, and the record that
the first file had is in no file. -/
theorem lost_renameFails :
    ∃ store, (rotatedLog (.plain .byte) 1).Reachable store ∧ store.Quiet ∧
      store.appended = [⟨0, 8, ⟨.byte, 5⟩⟩, ⟨1, 9, ⟨.byte, 6⟩⟩] ∧ store.dropped = [] ∧
        store.stored = [⟨0, 8, ⟨.byte, 5⟩⟩] ∧ ¬store.Keeps := by
  have ran : ((rotatedLog (.plain .byte) 1).run (LogStore.start (.plain .byte) 1)
      ([.append 0 8 ⟨.byte, 5⟩] ++ goOn 0 5 ++ [.shift 0] ++ goOn 0 16 ++ [.append 0 9 ⟨.byte, 6⟩] ++ goOn 0 5 ++
        [.shift 0] ++ goOn 0 9 ++ [.go 0 false] ++ goOn 0 6)).map
        (fun store => (store.tasks, store.appended, store.dropped, store.stored)) =
      some ([.idle], [⟨0, 8, ⟨.byte, 5⟩⟩, ⟨1, 9, ⟨.byte, 6⟩⟩], [], [⟨0, 8, ⟨.byte, 5⟩⟩]) := by decide +kernel
  obtain ⟨store, ran, same⟩ := Option.map_eq_some_iff.1 ran
  obtain ⟨tasks, rest⟩ := Prod.mk.inj same
  obtain ⟨appended, rest⟩ := Prod.mk.inj rest
  obtain ⟨dropped, stored⟩ := Prod.mk.inj rest
  refine ⟨store, Machine.Reachable.start.run ran, ?_, appended, dropped, stored, fun keeps => ?_⟩
  · unfold LogStore.Quiet
    rw [tasks]
    decide
  · have once := keeps.once ⟨1, 9, ⟨.byte, 6⟩⟩ (by rw [appended]; decide)
    rw [dropped, stored] at once
    exact absurd once (by decide)

end RpcFrmwrk.AppMon
