import HeaderSync.Proofs.Session.SecondPass
import HeaderSync.Session

/-!
# What one call does to a session

`Step` lists the ways in which an answered call can change a session, one for each way through
`process`, with everything that was tested on the way.
-/

namespace HeaderSync.Session

def measuredBy (s : Session) (batch : List Header) : List Header :=
  match s.stage with
  | .presync _ pass => pass.accepted s.rules batch
  | _ => []

def verifiedBy (s : Session) (batch : List Header) : List Header :=
  match s.stage with
  | .redownload _ pass => pass.accepted s.rules batch
  | _ => []

def isPresync (s : Session) : Bool :=
  match s.stage with
  | .presync _ _ => true
  | _ => false

def isRedownload (s : Session) : Bool :=
  match s.stage with
  | .redownload _ _ => true
  | _ => false

theorem stage_of_isPresync {s : Session} (hs : s.isPresync = true) :
    ∃ start pass, s.stage = .presync start pass := by
  cases h : s.stage with
  | presync start pass => exact ⟨start, pass, rfl⟩
  | redownload start pass => simp [isPresync, h] at hs
  | final report => simp [isPresync, h] at hs

theorem stage_of_isRedownload {s : Session} (hs : s.isRedownload = true) :
    ∃ start pass, s.stage = .redownload start pass := by
  cases h : s.stage with
  | presync start pass => simp [isRedownload, h] at hs
  | redownload start pass => exact ⟨start, pass, rfl⟩
  | final report => simp [isRedownload, h] at hs

theorem stage_of_isFinal {s : Session} (hs : s.isFinal = true) :
    ∃ report, s.stage = .final report := by
  cases h : s.stage with
  | presync start pass => simp [isFinal, h] at hs
  | redownload start pass => simp [isFinal, h] at hs
  | final report => exact ⟨report, rfl⟩

theorem abort?_of_isRedownload {s : Session} (hs : s.isRedownload = true) : s.abort? = none := by
  obtain ⟨start, pass, h⟩ := stage_of_isRedownload hs
  rw [abort?, h]

inductive Step (s : Session) (batch : List Header) (full : Bool) : Session → Reply → Prop
  | ignored (hi : batch = [] ∨ s.isFinal = true) : Step s batch full s .failure
  | presyncAborted {start : ChainStart} {pass pass' : Presync} {abort : Abort}
      (hs : s.stage = .presync start pass)
      (hr : pass.run s.rules batch = (pass', .ok (some abort))) :
      Step s batch full (s.finishPresync pass' abort) .failure
  | switched {start : ChainStart} {pass pass' : Presync} (hb : batch ≠ [])
      (hs : s.stage = .presync start pass) (hr : pass.run s.rules batch = (pass', .ok none))
      (hw : s.rules.minWork ≤ pass'.cursor.work) :
      Step s batch full
        { s with stage := .redownload start (Redownload.start s.rules start pass') }
        ⟨true, true, []⟩
  | measuring {start : ChainStart} {pass pass' : Presync} (hb : batch ≠ [])
      (hs : s.stage = .presync start pass) (hr : pass.run s.rules batch = (pass', .ok none))
      (hw : ¬ s.rules.minWork ≤ pass'.cursor.work) (hf : full = true) :
      Step s batch full { s with stage := .presync start pass' } ⟨true, true, []⟩
  | presyncEnded {start : ChainStart} {pass pass' : Presync} (hb : batch ≠ [])
      (hs : s.stage = .presync start pass) (hr : pass.run s.rules batch = (pass', .ok none))
      (hw : ¬ s.rules.minWork ≤ pass'.cursor.work) (hf : full = false) :
      Step s batch full (s.finishPresync pass' ⟨.incompleteMessage, pass'.cursor.height⟩)
        ⟨true, false, []⟩
  | redownloadAborted {start : ChainStart} {pass pass' : Redownload} {released : List Header}
      {abort : Abort} (hs : s.stage = .redownload start pass)
      (hr : pass.run s.rules batch = ⟨pass', released, .ok (some abort)⟩) :
      Step s batch full (s.finishRedownload pass' abort) .failure
  | completed {start : ChainStart} {pass pass' : Redownload} {released : List Header}
      (hb : batch ≠ []) (hs : s.stage = .redownload start pass)
      (hr : pass.run s.rules batch = ⟨pass', released, .ok none⟩)
      (hw : (pass'.buffer.isEmpty && pass'.isReleasing s.rules) = true) :
      Step s batch full (s.finishRedownload pass' none) ⟨true, false, released⟩
  | verifying {start : ChainStart} {pass pass' : Redownload} {released : List Header}
      (hb : batch ≠ []) (hs : s.stage = .redownload start pass)
      (hr : pass.run s.rules batch = ⟨pass', released, .ok none⟩)
      (hw : (pass'.buffer.isEmpty && pass'.isReleasing s.rules) = false) (hf : full = true) :
      Step s batch full { s with stage := .redownload start pass' } ⟨true, true, released⟩
  | redownloadEnded {start : ChainStart} {pass pass' : Redownload} {released : List Header}
      (hb : batch ≠ []) (hs : s.stage = .redownload start pass)
      (hr : pass.run s.rules batch = ⟨pass', released, .ok none⟩)
      (hw : (pass'.buffer.isEmpty && pass'.isReleasing s.rules) = false) (hf : full = false) :
      Step s batch full
        (s.finishRedownload pass' (some ⟨.incompleteMessage, pass'.cursor.height⟩))
        ⟨true, false, released⟩

variable {s s' : Session} {batch : List Header} {full : Bool} {reply : Reply}

theorem step_of_process (h : s.process batch full = (s', .ok reply)) :
    s.Step batch full s' reply := by
  unfold process at h
  split_ifs at h with hb
  · obtain ⟨rfl, hreply⟩ := Prod.mk.inj h
    obtain rfl := Except.ok.inj hreply
    exact .ignored (.inl (List.isEmpty_iff.mp hb))
  · have hne : batch ≠ [] := fun hnil => hb (List.isEmpty_iff.mpr hnil)
    cases hs : s.stage with
    | presync start pass =>
      simp only [hs, processPresync] at h
      split at h
      · simp at h
      · rename_i hr
        obtain ⟨rfl, hreply⟩ := Prod.mk.inj h
        obtain rfl := Except.ok.inj hreply
        exact .presyncAborted hs hr
      · rename_i hr
        split_ifs at h with hw hf <;> obtain ⟨rfl, hreply⟩ := Prod.mk.inj h <;>
          obtain rfl := Except.ok.inj hreply
        · exact .switched hne hs hr hw
        · exact .measuring hne hs hr hw hf
        · exact .presyncEnded hne hs hr hw (by simpa using hf)
    | redownload start pass =>
      simp only [hs, processRedownload] at h
      split at h
      · simp at h
      · rename_i hr
        obtain ⟨rfl, hreply⟩ := Prod.mk.inj h
        obtain rfl := Except.ok.inj hreply
        exact .redownloadAborted hs hr
      · rename_i hr
        split_ifs at h with hw hf <;> obtain ⟨rfl, hreply⟩ := Prod.mk.inj h <;>
          obtain rfl := Except.ok.inj hreply
        · exact .completed hne hs hr hw
        · exact .verifying hne hs hr (by simpa using hw) hf
        · exact .redownloadEnded hne hs hr (by simpa using hw) (by simpa using hf)
    | final report =>
      simp only [hs] at h
      obtain ⟨rfl, hreply⟩ := Prod.mk.inj h
      obtain rfl := Except.ok.inj hreply
      exact .ignored (.inr (by simp [isFinal, hs]))

/-- The only step from the first pass into the second. -/
theorem Step.of_switch (h : s.Step batch full s' reply) (hpre : s.isPresync = true)
    (hre : s'.isRedownload = true) :
    batch ≠ [] ∧ ∃ start pass pass', s.stage = .presync start pass ∧
      pass.run s.rules batch = (pass', .ok none) ∧ s.rules.minWork ≤ pass'.cursor.work := by
  obtain ⟨start, pass, hstage⟩ := stage_of_isPresync hpre
  obtain ⟨_, _, hstage'⟩ := stage_of_isRedownload hre
  cases h with
  | switched hb hs hr hw => exact ⟨hb, _, _, _, hs, hr, hw⟩
  | ignored hi => simp [hstage] at hstage'
  | measuring hb hs hr hw hf => cases hstage'
  | presyncAborted hs hr => cases hstage'
  | presyncEnded hb hs hr hw hf => cases hstage'
  | redownloadAborted hs hr => cases hstage'
  | completed hb hs hr hw => cases hstage'
  | verifying hb hs hr hw hf => simp [hstage] at hs
  | redownloadEnded hb hs hr hw hf => cases hstage'

end HeaderSync.Session
