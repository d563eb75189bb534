import OmapBootUtils.Win32Serial

/-!
The handles of the serial library on Windows. s_close leaves the events in their
variables, s_open does not look whether the port is open, and before the first
s_open the handle of the port is not the invalid one. Only calls that open and close
in turn keep every handle that is open in a variable and close no other.
-/
namespace OmapBootUtils.Win32Handles

open CallMachine Win32Serial
open LinkCalls (serialOk serialFailed)

/-! ### Open handles -/

/-- The library, and the handles that are open for it. -/
structure Session where
  lib : Lib
  held : List ℤ

/-- The library before its first call. -/
def start : Session := ⟨⟨[], 0, 0, 0⟩, []⟩

def created (log : List WinCall) : List ℤ :=
  log.filterMap fun
    | .createFile _ ret => if ret = invalidHandleValue then none else some ret
    | .createEvent ret => if ret = 0 then none else some ret
    | _ => none

def closed (log : List WinCall) : List ℤ :=
  log.filterMap fun
    | .closeHandle handle _ => some handle
    | _ => none

def Session.after (s : Session) (c : LibCall) : Session :=
  match perform s.lib c with
  | none => s
  | some o => ⟨o.lib, created o.log ++ s.held.filter (· ∉ closed o.log)⟩

def handleMachine : Machine Session LibCall WinCall where
  next := Session.after
  events s c := ((perform s.lib c).map Outcome.log).getD []

/-- The call stays inside its arrays, and Windows gives out handles that are not open. -/
def Fresh (s : Session) (c : LibCall) : Prop :=
  ∃ o, perform s.lib c = some o ∧ (created o.log).Nodup ∧
    ∀ h ∈ created o.log, h ≠ 0 ∧ h ≠ invalidHandleValue ∧ h ∉ s.held

def named (lib : Lib) : List ℤ := [lib.hSerial, lib.readEvent, lib.writeEvent]

/-- The call closes handles that are open, each once, and all that are open after it are in
the variables. -/
structure Kept (s : Session) (c : LibCall) : Prop where
  once : ∀ o, perform s.lib c = some o → (closed o.log).Nodup
  open_ : ∀ o, perform s.lib c = some o → ∀ h ∈ closed o.log, h ∈ s.held
  named : ∀ h ∈ (s.after c).held, h ∈ named (s.after c).lib

/-! ### Phases -/

/-- Never opened; nothing to close; open, with or without events; events left by s_close. -/
inductive Phase where
  | unused
  | idle
  | opened (events : Bool)
  | stale
  deriving DecidableEq, Repr

def Phase.afterOpen (p : Phase) (r : OpenResults) : Option Phase :=
  match p with
  | .opened _ => none
  | p =>
      if r.createFile = invalidHandleValue then some (if p = .unused then .idle else p)
      else some (.opened (r.readEvent ≠ 0 ∨ r.writeEvent ≠ 0))

def Phase.afterClose : Phase → Option Phase
  | .unused => none
  | .idle => some .idle
  | .opened events => some (if events then .stale else .idle)
  | .stale => none

/-- s_open while no port is open, and s_close while one is. -/
def Phase.next (p : Phase) : LibCall → Option Phase
  | .sOpen _ r => p.afterOpen r
  | .sClose _ => p.afterClose
  | _ => some p

/-- The events that are not NULL. -/
def events (lib : Lib) : List ℤ := [lib.readEvent, lib.writeEvent].filter (· ≠ 0)

/-- What the variables hold in a phase, and what is open. -/
def Holds (s : Session) : Phase → Prop
  | .unused => s.lib.hSerial = 0 ∧ events s.lib = [] ∧ s.held = []
  | .idle => s.lib.hSerial = invalidHandleValue ∧ events s.lib = [] ∧ s.held = []
  | .opened open_ => s.lib.hSerial ≠ 0 ∧ s.lib.hSerial ≠ invalidHandleValue ∧
      s.held = s.lib.hSerial :: events s.lib ∧ s.held.Nodup ∧ (open_ = true ↔ events s.lib ≠ [])
  | .stale => s.lib.hSerial = invalidHandleValue ∧ events s.lib ≠ [] ∧ s.held = []

/-- The name of the port is short enough for the check of s_open. -/
def Invariant (p : Phase) (s : Session) : Prop := s.lib.port.length < portSize ∧ Holds s p

theorem mem_events (lib : Lib) (h : ℤ) :
    h ∈ events lib ↔ (h = lib.readEvent ∨ h = lib.writeEvent) ∧ h ≠ 0 := by
  simp [events]

theorem mem_named_of_events (lib : Lib) (h : ℤ) (hmem : h ∈ events lib) : h ∈ named lib := by
  obtain ⟨hor, -⟩ := (mem_events lib h).mp hmem
  rcases hor with rfl | rfl <;> simp [named]

/-! ### One call -/

/-- The call neither creates nor closes a handle. -/
structure KeepsHandles (lib : Lib) (o : Outcome) : Prop where
  lib : o.lib = lib
  created : created o.log = []
  closed : closed o.log = []

theorem refused_keeps (lib : Lib) : KeepsHandles lib (refused lib) := ⟨rfl, rfl, rfl⟩

theorem created_append (l m : List WinCall) : created (l ++ m) = created l ++ created m :=
  List.filterMap_append

theorem closed_append (l m : List WinCall) : closed (l ++ m) = closed l ++ closed m :=
  List.filterMap_append

section Keeps
variable (lib : Lib)

theorem sConfigure_keeps (sBaudRate : ℕ) (sParity sStopBits sDataBits : UInt8)
    (r : ConfigureResults) :
    KeepsHandles lib (sConfigure lib sBaudRate sParity sStopBits sDataBits r) := by
  unfold sConfigure
  dsimp only
  repeat' split
  all_goals exact ⟨rfl, rfl, rfl⟩

theorem readLoop_keeps (h : ℤ) (sizeToRead totRead : ℕ) (reads : List (List UInt8)) :
    created (readLoop h sizeToRead totRead reads).1 = [] ∧
      closed (readLoop h sizeToRead totRead reads).1 = [] := by
  induction reads generalizing sizeToRead totRead with
  | nil => exact ⟨rfl, rfl⟩
  | cons arrived reads ih =>
    rw [readLoop]
    dsimp only
    split
    · exact ih _ _
    · exact ⟨rfl, rfl⟩

theorem sRead_keeps (size : ℕ) (r : ReadResults) (o : Outcome) (h : sRead lib size r = some o) :
    KeepsHandles lib o := by
  obtain ⟨hcreated, hclosed⟩ := readLoop_keeps lib.hSerial size 0 r.reads
  unfold sRead at h
  dsimp only at h
  split at h
  · rw [← Option.some.inj h]
    exact refused_keeps lib
  · split at h
    · rw [← Option.some.inj h]
      exact ⟨rfl, rfl, rfl⟩
    · split at h
      · rw [← Option.some.inj h]
        exact refused_keeps lib
      · cases hloop : readLoop lib.hSerial size 0 r.reads with
        | mk log last =>
          rw [hloop] at h hcreated hclosed
          cases last with
          | none =>
            rw [← Option.some.inj h]
            exact ⟨rfl, hcreated, hclosed⟩
          | some ends =>
            dsimp only at h hcreated hclosed
            split at h
            · obtain ⟨_, -, rfl⟩ := Option.map_eq_some_iff.mp h
              exact ⟨rfl, by rw [created_append, hcreated]; rfl, by rw [closed_append, hclosed]; rfl⟩
            · rw [← Option.some.inj h]
              exact ⟨rfl, hcreated, hclosed⟩

theorem sWrite_keeps (data : List UInt8) (writeFile : Bool) :
    KeepsHandles lib (sWrite lib data writeFile) := by
  unfold sWrite
  dsimp only
  repeat' split
  all_goals exact ⟨rfl, rfl, rfl⟩

/-- All calls but s_open and s_close leave the handles as they are. -/
theorem perform_keeps (c : LibCall) (hopen : ∀ tPort r, c ≠ .sOpen tPort r)
    (hclose : ∀ r, c ≠ .sClose r) (o : Outcome) (h : perform lib c = some o) :
    KeepsHandles lib o := by
  cases c with
  | sOpen tPort r => exact absurd rfl (hopen tPort r)
  | sClose r => exact absurd rfl (hclose r)
  | sConfigure sBaudRate sParity sStopBits sDataBits r =>
    rw [← Option.some.inj h]
    exact sConfigure_keeps lib sBaudRate sParity sStopBits sDataBits r
  | sFlush =>
    rw [← Option.some.inj h]
    exact ⟨rfl, rfl, rfl⟩
  | sRead size r => exact sRead_keeps lib size r o h
  | sWrite data writeFile =>
    rw [← Option.some.inj h]
    exact sWrite_keeps lib data writeFile
  | sReadRemaining r =>
    obtain ⟨_, -, rfl⟩ := Option.map_eq_some_iff.mp h
    exact ⟨rfl, rfl, rfl⟩
  | sGetc r =>
    obtain ⟨o', ho', rfl⟩ := Option.map_eq_some_iff.mp h
    have hread := sRead_keeps lib 1 r o' ho'
    exact ⟨hread.lib, hread.created, hread.closed⟩
  | sPutc x writeFile =>
    have hwrite := sWrite_keeps lib [x] writeFile
    rw [← Option.some.inj h]
    exact ⟨hwrite.lib, hwrite.created, hwrite.closed⟩
  | sBreak =>
    rw [← Option.some.inj h]
    exact refused_keeps lib

/-- How s_open ends when the name that is stored is short. -/
inductive OpenEnd (tPort : List UInt8) (r : OpenResults) : Prop
  | outside (hname : 15 < tPort.length) (h : sOpen lib tPort r = none)
  | failed (hname : tPort.length ≤ 15) (hret : r.createFile = invalidHandleValue)
      (h : sOpen lib tPort r = some ⟨some serialFailed,
        [.createFile (comPort tPort) r.createFile], { lib with hSerial := r.createFile }⟩)
  | opened (hname : tPort.length ≤ 15) (hret : r.createFile ≠ invalidHandleValue)
      (h : sOpen lib tPort r = some ⟨some serialOk,
        [.createFile (comPort tPort) r.createFile, .createEvent r.readEvent,
          .createEvent r.writeEvent], ⟨tPort, r.createFile, r.readEvent, r.writeEvent⟩⟩)

theorem sOpen_end (hport : lib.port.length < portSize) (tPort : List UInt8) (r : OpenResults) :
    OpenEnd lib tPort r := by
  have hcheck : ¬ portSize ≤ lib.port.length := by omega
  have hlength : (comPort tPort).length = tPort.length + 4 := by
    rw [comPort, List.length_append, Nat.add_comm]
    rfl
  by_cases hname : 15 < tPort.length
  · have hover : comPortSize < (comPort tPort).length + 1 := by
      rw [hlength, comPortSize]
      omega
    exact .outside hname (by rw [sOpen, if_neg hcheck, if_pos hover])
  · have hfits : ¬ comPortSize < (comPort tPort).length + 1 := by
      rw [hlength, comPortSize]
      omega
    by_cases hret : r.createFile = invalidHandleValue
    · exact .failed (by omega) hret (by simp only [sOpen, hcheck, hfits, hret, if_true, if_false])
    · exact .opened (by omega) hret (by
        simp only [sOpen, hcheck, hfits, hret, if_false]
        rfl)

theorem created_opened (name : List UInt8) (r : OpenResults)
    (hret : r.createFile ≠ invalidHandleValue) :
    created [.createFile name r.createFile, .createEvent r.readEvent, .createEvent r.writeEvent] =
      r.createFile :: [r.readEvent, r.writeEvent].filter (· ≠ 0) := by
  by_cases hread : r.readEvent = 0 <;> by_cases hwrite : r.writeEvent = 0 <;>
    simp [created, hret, hread, hwrite]

theorem closed_sClose (r : CloseResults) :
    closed (sClose lib r).log =
      (if lib.hSerial = invalidHandleValue then [] else [lib.hSerial]) ++ events lib := by
  by_cases hserial : lib.hSerial = invalidHandleValue <;>
    by_cases hread : lib.readEvent = 0 <;> by_cases hwrite : lib.writeEvent = 0 <;>
      simp [closed, sClose, events, hserial, hread, hwrite]

theorem created_sClose (r : CloseResults) : created (sClose lib r).log = [] := by
  unfold sClose
  dsimp only
  repeat' split
  all_goals rfl

end Keeps

/-! ### One step of a session -/

section Step
variable (s : Session)

theorem after_eq (c : LibCall) (o : Outcome) (ho : perform s.lib c = some o) :
    s.after c = ⟨o.lib, created o.log ++ s.held.filter (· ∉ closed o.log)⟩ := by
  rw [Session.after, ho]

theorem kept_iff (c : LibCall) (o : Outcome) (ho : perform s.lib c = some o) :
    Kept s c ↔ (closed o.log).Nodup ∧ (∀ h ∈ closed o.log, h ∈ s.held) ∧
      ∀ h ∈ created o.log ++ s.held.filter (· ∉ closed o.log), h ∈ named o.lib := by
  constructor
  · intro hkept
    have hnamed := hkept.named
    rw [after_eq s c o ho] at hnamed
    exact ⟨hkept.once o ho, hkept.open_ o ho, hnamed⟩
  · intro h
    refine ⟨?_, ?_, ?_⟩
    · intro o' ho'
      rw [ho, Option.some.injEq] at ho'
      rw [← ho']
      exact h.1
    · intro o' ho'
      rw [ho, Option.some.injEq] at ho'
      rw [← ho']
      exact h.2.1
    · rw [after_eq s c o ho]
      exact h.2.2

theorem holds_named (p : Phase) (h : Holds s p) : ∀ x ∈ s.held, x ∈ named s.lib := by
  intro x hx
  cases p with
  | unused =>
    rw [h.2.2] at hx
    cases hx
  | idle =>
    rw [h.2.2] at hx
    cases hx
  | opened open_ =>
    obtain ⟨-, -, hheld, -, -⟩ := h
    rw [hheld] at hx
    rcases List.mem_cons.mp hx with rfl | hevent
    · simp [named]
    · exact mem_named_of_events s.lib x hevent
  | stale =>
    rw [h.2.2] at hx
    cases hx

/-- All other calls leave the session as it is. -/
theorem other_step (p : Phase) (c : LibCall) (h : Invariant p s) (hfresh : Fresh s c)
    (hopen : ∀ tPort r, c ≠ .sOpen tPort r) (hclose : ∀ r, c ≠ .sClose r) :
    Kept s c ∧ Invariant p (s.after c) := by
  obtain ⟨o, ho, -⟩ := hfresh
  have hkeeps := perform_keeps s.lib c hopen hclose o ho
  have hfilter : s.held.filter (· ∉ closed o.log) = s.held := by simp [hkeeps.closed]
  have hafter : s.after c = s := by
    rw [after_eq s c o ho, hfilter, hkeeps.created, hkeeps.lib]
    rfl
  rw [kept_iff s c o ho, hafter, hfilter, hkeeps.created, hkeeps.closed, hkeeps.lib]
  exact ⟨⟨List.nodup_nil, by simp, holds_named s p h.2⟩, h⟩

theorem held_nil (p : Phase) (h : Holds s p) (hclosed : ∀ open_, p ≠ .opened open_) :
    s.held = [] := by
  cases p with
  | unused => exact h.2.2
  | idle => exact h.2.2
  | opened open_ => exact absurd rfl (hclosed open_)
  | stale => exact h.2.2

theorem afterOpen_failed (p p' : Phase) (r : OpenResults)
    (hret : r.createFile = invalidHandleValue) (h : p.afterOpen r = some p') :
    p' = if p = .unused then .idle else p := by
  cases p with
  | opened open_ => cases h
  | unused =>
    simp only [Phase.afterOpen, hret, if_true, Option.some.injEq] at h ⊢
    exact h.symm
  | idle =>
    simp only [Phase.afterOpen, hret, if_true, Option.some.injEq] at h ⊢
    exact h.symm
  | stale =>
    simp only [Phase.afterOpen, hret, if_true, Option.some.injEq] at h ⊢
    exact h.symm

theorem afterOpen_opened (p p' : Phase) (r : OpenResults)
    (hret : r.createFile ≠ invalidHandleValue) (h : p.afterOpen r = some p') :
    p' = .opened (r.readEvent ≠ 0 ∨ r.writeEvent ≠ 0) := by
  cases p with
  | opened open_ => cases h
  | _ =>
    simp only [Phase.afterOpen, hret, if_false, Option.some.injEq] at h
    exact h.symm

/-- s_open while no port is open. -/
theorem sOpen_step (p p' : Phase) (tPort : List UInt8) (r : OpenResults) (h : Invariant p s)
    (hfresh : Fresh s (.sOpen tPort r)) (hnext : p.afterOpen r = some p') :
    Kept s (.sOpen tPort r) ∧ Invariant p' (s.after (.sOpen tPort r)) := by
  have hclosed : ∀ open_, p ≠ .opened open_ := by
    rintro open_ rfl
    cases hnext
  have hheld := held_nil s p h.2 hclosed
  obtain ⟨o, ho, hnodup, hnew⟩ := hfresh
  cases sOpen_end s.lib h.1 tPort r with
  | outside _ hend =>
    rw [perform, hend] at ho
    cases ho
  | failed _ hret hend =>
    obtain rfl : _ = o := Option.some.inj (hend.symm.trans ho)
    have hnone : created [.createFile (comPort tPort) r.createFile] = [] := by simp [created, hret]
    rw [kept_iff s _ _ ho, after_eq s _ _ ho, hnone, hheld]
    refine ⟨⟨List.nodup_nil, by simp [closed], by simp⟩, h.1, ?_⟩
    rw [afterOpen_failed p p' r hret hnext]
    cases p with
    | unused => exact ⟨hret, h.2.2.1, rfl⟩
    | idle => exact ⟨hret, h.2.2.1, rfl⟩
    | opened open_ => exact absurd rfl (hclosed open_)
    | stale => exact ⟨hret, h.2.2.1, rfl⟩
  | opened hname hret hend =>
    obtain rfl : _ = o := Option.some.inj (hend.symm.trans ho)
    rw [created_opened _ r hret] at hnodup hnew
    rw [kept_iff s _ _ ho, after_eq s _ _ ho, created_opened _ r hret, hheld, List.filter_nil,
      List.append_nil, afterOpen_opened p p' r hret hnext]
    have hevents : events ⟨tPort, r.createFile, r.readEvent, r.writeEvent⟩ =
        [r.readEvent, r.writeEvent].filter (· ≠ 0) := rfl
    refine ⟨⟨List.nodup_nil, by simp [closed], ?_⟩, ?_, ?_⟩
    · intro x hx
      rcases List.mem_cons.mp hx with rfl | hevent
      · simp [named]
      · exact mem_named_of_events _ x (hevents ▸ hevent)
    · have hsize : portSize = 30 := rfl
      simp only
      omega
    · obtain ⟨hzero, hvalid, -⟩ := hnew r.createFile (List.mem_cons_self ..)
      refine ⟨hzero, hvalid, rfl, hnodup, ?_⟩
      rw [hevents]
      by_cases hread : r.readEvent = 0 <;> by_cases hwrite : r.writeEvent = 0 <;>
        simp [hread, hwrite]

/-- s_open while a port is open loses its handle. -/
theorem sOpen_loses (open_ : Bool) (tPort : List UInt8) (r : OpenResults)
    (h : Invariant (.opened open_) s) (hfresh : Fresh s (.sOpen tPort r)) :
    ¬ Kept s (.sOpen tPort r) := by
  obtain ⟨hport, hzero, hvalid, hheld, hnodup, -⟩ := h
  obtain ⟨o, ho, -, hnew⟩ := hfresh
  have hmem : s.lib.hSerial ∈ s.held := by
    rw [hheld]
    exact List.mem_cons_self ..
  have hevents : s.lib.hSerial ∉ events s.lib := by
    rw [hheld] at hnodup
    exact (List.nodup_cons.mp hnodup).1
  intro hkept
  obtain ⟨-, -, hnamed⟩ := (kept_iff s _ o ho).mp hkept
  cases sOpen_end s.lib hport tPort r with
  | outside _ hend =>
    rw [perform, hend] at ho
    cases ho
  | failed _ hret hend =>
    obtain rfl : _ = o := Option.some.inj (hend.symm.trans ho)
    have hstill := hnamed s.lib.hSerial (by simp [closed, hmem])
    simp only [named, hret, List.mem_cons, hvalid, List.not_mem_nil, or_false, false_or] at hstill
    exact hevents ((mem_events s.lib _).mpr ⟨hstill, hzero⟩)
  | opened _ hret hend =>
    obtain rfl : _ = o := Option.some.inj (hend.symm.trans ho)
    have hstill := hnamed s.lib.hSerial (by simp [closed, hmem])
    rw [created_opened _ r hret] at hnew
    have hcreated : s.lib.hSerial ∈ r.createFile :: [r.readEvent, r.writeEvent].filter (· ≠ 0) := by
      rcases List.mem_cons.mp hstill with hfile | hevent
      · rw [hfile]
        exact List.mem_cons_self ..
      · exact List.mem_cons_of_mem _ (List.mem_filter.mpr ⟨hevent, by simpa using hzero⟩)
    exact (hnew _ hcreated).2.2 hmem

/-- s_close while a port is open, or with nothing to close. -/
theorem sClose_step (p p' : Phase) (r : CloseResults) (h : Invariant p s)
    (hnext : p.afterClose = some p') :
    Kept s (.sClose r) ∧ Invariant p' (s.after (.sClose r)) := by
  have ho : perform s.lib (.sClose r) = some (sClose s.lib r) := rfl
  have hevents : events (sClose s.lib r).lib = events s.lib := rfl
  have hserial : (sClose s.lib r).lib.hSerial = invalidHandleValue := rfl
  rw [kept_iff s _ _ ho, after_eq s _ _ ho, created_sClose, closed_sClose, List.nil_append]
  cases p with
  | unused => cases hnext
  | stale => cases hnext
  | idle =>
    obtain ⟨hport, hinvalid, hnone, hheld⟩ := h
    obtain rfl : Phase.idle = p' := Option.some.inj hnext
    rw [if_pos hinvalid, hnone, hheld]
    exact ⟨⟨List.nodup_nil, by simp, by simp⟩, hport, hserial, hevents.trans hnone, rfl⟩
  | opened open_ =>
    obtain ⟨hport, hzero, hvalid, hheld, hnodup, hopen⟩ := h
    have hall : [s.lib.hSerial] ++ events s.lib = s.held := hheld.symm
    have hempty : s.held.filter (fun x => decide (x ∉ s.held)) = [] := by simp
    rw [if_neg hvalid, hall, hempty]
    refine ⟨⟨hnodup, fun x hx => hx, by simp⟩, hport, ?_⟩
    rw [Phase.afterClose, Option.some.injEq] at hnext
    cases open_ with
    | true =>
      rw [← hnext]
      exact ⟨hserial, hopen.mp rfl, rfl⟩
    | false =>
      have hnone : events s.lib = [] := by
        by_contra hne
        cases hopen.mpr hne
      rw [← hnext]
      exact ⟨hserial, hevents.trans hnone, rfl⟩

/-- s_close before the first s_open, or once more. -/
theorem sClose_closesOther (p : Phase) (r : CloseResults) (h : Invariant p s)
    (hnext : p.afterClose = none) : ¬ Kept s (.sClose r) := by
  have ho : perform s.lib (.sClose r) = some (sClose s.lib r) := rfl
  intro hkept
  obtain ⟨-, hopen, -⟩ := (kept_iff s _ _ ho).mp hkept
  rw [closed_sClose] at hopen
  cases p with
  | idle => cases hnext
  | opened open_ => cases hnext
  | unused =>
    obtain ⟨-, hzero, -, hheld⟩ := h
    have hvalid : s.lib.hSerial ≠ invalidHandleValue := by
      rw [hzero]
      decide
    have hmem := hopen s.lib.hSerial (by simp [hvalid])
    rw [hheld] at hmem
    cases hmem
  | stale =>
    obtain ⟨-, -, hevents, hheld⟩ := h
    obtain ⟨x, hx⟩ := List.exists_mem_of_ne_nil _ hevents
    have hmem := hopen x (List.mem_append_right _ hx)
    rw [hheld] at hmem
    cases hmem

end Step

theorem next_other (p : Phase) (c : LibCall) (hopen : ∀ tPort r, c ≠ .sOpen tPort r)
    (hclose : ∀ r, c ≠ .sClose r) : p.next c = some p := by
  cases c with
  | sOpen tPort r => exact absurd rfl (hopen tPort r)
  | sClose r => exact absurd rfl (hclose r)
  | _ => rfl

/-- Every call is s_open, s_close, or one of the others. -/
theorem call_cases (c : LibCall) : (∃ tPort r, c = .sOpen tPort r) ∨ (∃ r, c = .sClose r) ∨
    (∀ tPort r, c ≠ .sOpen tPort r) ∧ ∀ r, c ≠ .sClose r := by
  cases c with
  | sOpen tPort r => exact Or.inl ⟨tPort, r, rfl⟩
  | sClose r => exact Or.inr (Or.inl ⟨r, rfl⟩)
  | _ => exact Or.inr (Or.inr ⟨fun _ _ => nofun, fun _ => nofun⟩)

/-- Over any sequence of calls that stay inside their arrays: every CloseHandle gets a handle
that is open, and every open handle stays in a variable, if and only if s_open is called only
while no port is open, and s_close only while one is, or when s_open has failed and no event is
left from before. -/
theorem handles_kept_iff (cs : List LibCall) (henv : handleMachine.Along Fresh start cs) :
    handleMachine.Along Kept start cs ↔ (cs.foldlM Phase.next .unused).isSome := by
  apply handleMachine.along_iff_disciplined Phase.next Invariant Fresh Kept _ _ .unused start _ cs
    henv
  · intro p s c p' h hfresh hnext
    rcases call_cases c with hopen | hclose | hother
    · obtain ⟨tPort, r, rfl⟩ := hopen
      exact sOpen_step s p p' tPort r h hfresh hnext
    · obtain ⟨r, rfl⟩ := hclose
      exact sClose_step s p p' r h hnext
    · rw [next_other p c hother.1 hother.2, Option.some.injEq] at hnext
      rw [← hnext]
      exact other_step s p c h hfresh hother.1 hother.2
  · intro p s c h hfresh hnext
    rcases call_cases c with hopen | hclose | hother
    · obtain ⟨tPort, r, rfl⟩ := hopen
      cases p with
      | opened open_ => exact sOpen_loses s open_ tPort r h hfresh
      | _ =>
        simp only [Phase.next, Phase.afterOpen] at hnext
        split at hnext <;> cases hnext
    · obtain ⟨r, rfl⟩ := hclose
      exact sClose_closesOther s p r h hnext
    · rw [next_other p c hother.1 hother.2] at hnext
      cases hnext
  · exact ⟨by decide, rfl, rfl, rfl⟩

/-- A port that is opened, and closed twice. -/
def closedTwice : List LibCall :=
  [.sOpen [0x43, 0x4F, 0x4D, 0x31] ⟨3, 4, 5⟩, .sClose ⟨true, true, true⟩,
    .sClose ⟨true, false, false⟩]

theorem handles_kept_closedTwice : ¬ handleMachine.Along Kept start closedTwice := by
  have hfresh : handleMachine.Along Fresh start closedTwice :=
    ⟨⟨_, rfl, by decide, by decide⟩, ⟨_, rfl, by decide, by decide⟩,
      ⟨_, rfl, by decide, by decide⟩, trivial⟩
  rw [handles_kept_iff closedTwice hfresh]
  decide

/-! ### Names of ports -/

theorem port_after (s : Session) (c : LibCall) (h : s.lib.port.length ≤ 15) :
    (s.after c).lib.port.length ≤ 15 := by
  have hport : s.lib.port.length < portSize := Nat.lt_of_le_of_lt h (by decide)
  cases ho : perform s.lib c with
  | none => rwa [Session.after, ho]
  | some o =>
    rw [after_eq s c o ho]
    rcases call_cases c with hopen | hclose | hother
    · obtain ⟨tPort, r, rfl⟩ := hopen
      cases sOpen_end s.lib hport tPort r with
      | outside _ hend =>
        rw [perform, hend] at ho
        cases ho
      | failed _ _ hend =>
        obtain rfl : _ = o := Option.some.inj (hend.symm.trans ho)
        exact h
      | opened hname _ hend =>
        obtain rfl : _ = o := Option.some.inj (hend.symm.trans ho)
        exact hname
    · obtain ⟨r, rfl⟩ := hclose
      obtain rfl : sClose s.lib r = o := Option.some.inj ho
      exact h
    · rw [(perform_keeps s.lib c hother.1 hother.2 o ho).lib]
      exact h

theorem port_run (s : Session) (cs : List LibCall) (h : s.lib.port.length ≤ 15) :
    (handleMachine.run s cs).lib.port.length ≤ 15 := by
  induction cs generalizing s with
  | nil => exact h
  | cons c cs ih => exact ih (s.after c) (port_after s c h)

/-- After any calls, s_open refuses no name for its length: a name of more than 15 characters
is written outside com_port, and every other goes to CreateFile. -/
theorem no_name_refused (cs : List LibCall) (tPort : List UInt8) (r : OpenResults) :
    (sOpen (handleMachine.run start cs).lib tPort r = none ↔ 15 < tPort.length) ∧
      ∀ o, sOpen (handleMachine.run start cs).lib tPort r = some o →
        .createFile (comPort tPort) r.createFile ∈ o.log := by
  have hport := port_run start cs (Nat.zero_le _)
  have hsize : portSize = 30 := rfl
  cases sOpen_end (handleMachine.run start cs).lib (by omega) tPort r with
  | outside hname hend => simp [hend, hname]
  | failed hname _ hend => simp [hend, hname]
  | opened hname _ hend => simp [hend, hname]

end OmapBootUtils.Win32Handles
