import Mathlib.Data.List.TakeWhile
import Mathlib.Logic.Function.Basic

/-!
# The zone of a host

The registration takes the zone from the host name: it is what comes before the first `-`. The
loop that copies it is bounded by the buffer of the host name and not by that of the zone, so the
memory from `zone` on is modelled beyond its end, and a run keeps the positions it has written.
-/

namespace XMonitor.Register

def hostNameMax : Nat := 64
def zoneBufLen : Nat := 8

/-- The character `-`. -/
def dash : UInt8 := 45

/-- `strlcpy`: what it writes, from the start of the destination on. Behind the bytes of `src` is
their zero. -/
def strlcpy : Nat → List UInt8 → List UInt8
  | 0, _ => []
  | 1, _ => [0]
  | _ + 2, [] => [0]
  | siz + 2, b :: src => if b = 0 then [0] else b :: strlcpy (siz + 1) src

/-- The fields of `struct register_mgr` that hold the host name and the zone. -/
structure RegisterMgr where
  endpoint : List UInt8
  endpoint_length : endpoint.length = hostNameMax
  /-- The memory from the start of `zone` on. Its end is the start of the fields behind it. -/
  zone : Nat → UInt8
  /-- The positions in that memory that have been written. -/
  written : List Nat := []

def RegisterMgr.writeZone (mgr : RegisterMgr) (index : Nat) (byte : UInt8) : RegisterMgr :=
  { mgr with zone := Function.update mgr.zone index byte, written := mgr.written ++ [index] }

/-- The loop of `__init_register_config` over at most `n` bytes of the host name. -/
def zoneLoop : Nat → Nat → RegisterMgr → RegisterMgr
  | 0, _, mgr => mgr
  | n + 1, index, mgr =>
      let sByte := mgr.endpoint.getD index 0
      if sByte = dash ∨ sByte = 0 then mgr.writeZone index 0
      else zoneLoop n (index + 1) (mgr.writeZone index sByte)

theorem strlcpy_eq (siz : Nat) (src : List UInt8) :
    strlcpy (siz + 1) src = (src.takeWhile fun b => b ≠ 0).take siz ++ [0] := by
  induction siz generalizing src with
  | zero => rfl
  | succ siz ih =>
      cases src with
      | nil => rfl
      | cons b src =>
          rw [strlcpy]
          by_cases hb : b = 0
          · rw [if_pos hb, List.takeWhile_cons_of_neg (by simp [hb])]
            rfl
          · rw [if_neg hb, ih, List.takeWhile_cons_of_pos (by simp [hb])]
            rfl

theorem length_strlcpy_le (siz : Nat) (src : List UInt8) : (strlcpy siz src).length ≤ siz := by
  cases siz with
  | zero => exact Nat.le_refl _
  | succ siz =>
      rw [strlcpy_eq, List.length_append]
      exact Nat.succ_le_succ (List.length_take_le _ _)

/-- The host name in the buffer of the endpoint. -/
def RegisterMgr.setEndpoint (mgr : RegisterMgr) (hostname : List UInt8) : RegisterMgr :=
  let copied := strlcpy hostNameMax hostname
  { mgr with
    endpoint := copied ++ mgr.endpoint.drop copied.length
    endpoint_length := by
      have hcopied : copied.length ≤ hostNameMax := length_strlcpy_le _ _
      rw [List.length_append, List.length_drop, mgr.endpoint_length]
      exact Nat.add_sub_cancel' hcopied }

/-- The part of `__init_register_config` that copies the host name and finds the zone in it. -/
def initZone (mgr : RegisterMgr) (hostname : List UInt8) : RegisterMgr :=
  zoneLoop hostNameMax 0 { mgr.setEndpoint hostname with written := [] }

/-! ## What a zone is -/

/-- The host name as far as the endpoint has room for it. -/
def endpointName (hostname : List UInt8) : List UInt8 :=
  (hostname.takeWhile fun b => b ≠ 0).take (hostNameMax - 1)

/-- The name before its first `-`. -/
def zoneName (hostname : List UInt8) : List UInt8 :=
  (endpointName hostname).takeWhile fun b => b ≠ dash

/-- Everything is written into `zone`, where the zone is left with its zero, cut to the size of
the buffer. -/
structure ZoneOk (hostname : List UInt8) (mgr : RegisterMgr) : Prop where
  inside : ∀ index ∈ mgr.written, index < zoneBufLen
  text : ∀ index b, ((zoneName hostname).take (zoneBufLen - 1) ++ [0])[index]? = some b →
    mgr.zone index = b

/-- What the loop does from the position of `name` on, which ends at `stop`. -/
theorem zoneLoop_eq {name : List UInt8} {stop : UInt8} (hstop : stop = dash ∨ stop = 0)
    (hname : ∀ b ∈ name, b ≠ dash ∧ b ≠ 0) {before rest : List UInt8} {n : Nat}
    (hn : name.length < n) {mgr : RegisterMgr}
    (hendpoint : mgr.endpoint = before ++ name ++ stop :: rest) :
    let final := zoneLoop n before.length mgr
    final.written = mgr.written ++ List.range' before.length (name.length + 1) ∧
      (∀ index < before.length, final.zone index = mgr.zone index) ∧
      ∀ index b, (name ++ [0])[index]? = some b → final.zone (before.length + index) = b := by
  induction name generalizing before n mgr with
  | nil =>
      obtain ⟨n, rfl⟩ := Nat.exists_eq_succ_of_ne_zero (Nat.ne_of_gt hn)
      have hbyte : mgr.endpoint.getD before.length 0 = stop := by
        simp [hendpoint]
      rw [zoneLoop, hbyte]
      simp only [if_pos hstop]
      refine ⟨rfl, fun index hindex => ?_, fun index b hb => ?_⟩
      · exact Function.update_of_ne (Nat.ne_of_lt hindex) _ _
      · obtain ⟨rfl, rfl⟩ : index = 0 ∧ b = 0 := by
          cases index with
          | zero => exact ⟨rfl, (Option.some.inj hb).symm⟩
          | succ index => cases hb
        exact Function.update_self _ _ _
  | cons c name ih =>
      obtain ⟨n, rfl⟩ := Nat.exists_eq_succ_of_ne_zero (Nat.ne_of_gt (Nat.zero_lt_of_lt hn))
      obtain ⟨hc, hname⟩ := List.forall_mem_cons.mp hname
      have hbyte : mgr.endpoint.getD before.length 0 = c := by
        simp [hendpoint]
      have hnext : (mgr.writeZone before.length c).endpoint =
          (before ++ [c]) ++ name ++ stop :: rest := hendpoint.trans (by simp)
      have hlength : (before ++ [c]).length = before.length + 1 := by simp
      rw [zoneLoop, hbyte]
      simp only [if_neg (not_or.mpr hc)]
      obtain ⟨hwritten, hbelow, htext⟩ :=
        ih hname (Nat.lt_of_succ_lt_succ hn) hnext
      rw [hlength] at hwritten hbelow htext
      refine ⟨?_, fun index hindex => ?_, fun index b hb => ?_⟩
      · rw [hwritten]
        show mgr.written ++ [before.length] ++ _ = _
        rw [List.append_assoc, List.length_cons, List.range'_succ (n := name.length + 1)]
        rfl
      · rw [hbelow index (Nat.lt_succ_of_lt hindex)]
        exact Function.update_of_ne (Nat.ne_of_lt hindex) _ _
      · cases index with
        | zero =>
            obtain rfl : c = b := Option.some.inj hb
            exact (hbelow _ (Nat.lt_succ_self _)).trans (Function.update_self _ _ _)
        | succ index =>
            have hnext := htext index b hb
            rwa [Nat.add_assoc, Nat.add_comm 1] at hnext

/-- Behind the zone comes a `-`, or the end of the name. -/
theorem endpointName_split (hostname : List UInt8) :
    ∃ stop rest, (stop = dash ∨ stop = 0) ∧
      endpointName hostname ++ [0] = zoneName hostname ++ stop :: rest := by
  have hsplit : endpointName hostname =
      zoneName hostname ++ (endpointName hostname).dropWhile fun b => b ≠ dash :=
    List.takeWhile_append_dropWhile.symm
  cases hdrop : (endpointName hostname).dropWhile fun b => b ≠ dash with
  | nil =>
      refine ⟨0, [], .inr rfl, ?_⟩
      rw [hdrop, List.append_nil] at hsplit
      rw [← hsplit]
  | cons stop rest =>
      refine ⟨stop, rest ++ [0], .inl ?_, ?_⟩
      · have hhead := List.head?_dropWhile_not (fun b => decide (b ≠ dash)) (endpointName hostname)
        rw [hdrop] at hhead
        exact of_not_not (of_decide_eq_false hhead)
      · rw [hdrop] at hsplit
        rw [hsplit]
        simp

theorem mem_zoneName {hostname : List UInt8} {b : UInt8} (hb : b ∈ zoneName hostname) :
    b ≠ dash ∧ b ≠ 0 := by
  have hdash := List.mem_takeWhile_imp hb
  have hmem := List.mem_of_mem_take ((List.takeWhile_sublist _).mem hb)
  have hzero := List.mem_takeWhile_imp hmem
  exact ⟨of_decide_eq_true hdash, of_decide_eq_true hzero⟩

theorem length_zoneName_lt (hostname : List UInt8) : (zoneName hostname).length < hostNameMax := by
  have hle : (zoneName hostname).length ≤ (endpointName hostname).length :=
    (List.takeWhile_sublist _).length_le
  have htake : (endpointName hostname).length ≤ hostNameMax - 1 := List.length_take_le _ _
  exact Nat.lt_of_le_of_lt (hle.trans htake) (by decide)

/-- The zone is written from the start of the buffer, with its zero, however long it is. -/
theorem initZone_spec (mgr : RegisterMgr) (hostname : List UInt8) :
    (initZone mgr hostname).written = List.range' 0 ((zoneName hostname).length + 1) ∧
      ∀ index b, (zoneName hostname ++ [0])[index]? = some b →
        (initZone mgr hostname).zone index = b := by
  obtain ⟨stop, rest, hstop, hsplit⟩ := endpointName_split hostname
  have hcopied : strlcpy hostNameMax hostname = zoneName hostname ++ stop :: rest :=
    (strlcpy_eq _ _).trans hsplit
  let start : RegisterMgr := { mgr.setEndpoint hostname with written := [] }
  have hendpoint : start.endpoint = [] ++ zoneName hostname ++ stop ::
      (rest ++ mgr.endpoint.drop (strlcpy hostNameMax hostname).length) := by
    show strlcpy hostNameMax hostname ++ _ = _
    rw [hcopied]
    simp
  obtain ⟨hwritten, -, htext⟩ := zoneLoop_eq hstop (fun b => mem_zoneName)
    (length_zoneName_lt hostname) hendpoint
  refine ⟨hwritten, fun index b hb => ?_⟩
  have hindex := htext index b hb
  rwa [List.length_nil, Nat.zero_add] at hindex

/-- The zone stays in its buffer exactly if it is shorter than the buffer. -/
theorem zoneOk_initZone_iff (mgr : RegisterMgr) (hostname : List UInt8) :
    ZoneOk hostname (initZone mgr hostname) ↔ (zoneName hostname).length < zoneBufLen := by
  obtain ⟨hwritten, htext⟩ := initZone_spec mgr hostname
  constructor
  · rintro ⟨hinside, -⟩
    apply hinside
    rw [hwritten, List.mem_range'_1]
    omega
  · intro hlt
    have hfit : (zoneName hostname).take (zoneBufLen - 1) = zoneName hostname :=
      List.take_of_length_le (Nat.le_pred_of_lt hlt)
    refine ⟨fun index hindex => ?_, fun index b hb => ?_⟩
    · rw [hwritten, List.mem_range'_1] at hindex
      omega
    · rw [hfit] at hb
      exact htext index b hb

/-- `localhost` -/
def localhost : List UInt8 := [108, 111, 99, 97, 108, 104, 111, 115, 116]

/-- The end of this name is written behind the buffer. -/
theorem localhost_leaves_zone : ¬ ∀ mgr hostname, ZoneOk hostname (initZone mgr hostname) := by
  intro h
  let mgr : RegisterMgr := ⟨List.replicate hostNameMax 0, rfl, fun _ => 0, []⟩
  have hinside := (h mgr localhost).inside 9
  have hwritten : (initZone mgr localhost).written = List.range' 0 10 :=
    (initZone_spec mgr localhost).1
  rw [hwritten] at hinside
  exact absurd (hinside (by decide)) (by decide)

end XMonitor.Register
