import NetworkLab.Kbench.Report
import NetworkLab.Lib.Files
import NetworkLab.Lib.Shell

/-!
# Rounds of benchmarks

`lab-routes-ipv6/2026/bench-all` and what `lab-routes-ipv6/2026/run-kernel` leaves in the directory
of the results. A call may be stopped at any time, `bench-all` together with the `run-kernel` that
it waits for, and `bench-all` is called again once the processes of the call have ended. A version
is the name of a directory.
-/

namespace NetworkLab.Kbench.BenchAll

open Lib Shell Files Report

/-- A file below `results`. -/
structure Path where
  version : Text
  name : Text
  deriving DecidableEq

namespace Path

/-- `results/$v/$round`. -/
def round (v : Text) (round : Nat) : Path := ⟨v, Nat.toDigits 10 round⟩

/-- `"$OUTPUT".console`. -/
def console (output : Path) : Path := { output with name := output.name ++ ".console".toList }

end Path

/-- The files below `results`. -/
abbrev Results := Path → Option (List UInt8)

/-- What a visit to a version meets: the files of the build, as the one script and then the other
one looks for them, whether the initrd can be made, the console and the output of the machine, what
the host says of itself unless a command of this fails, and where `cp` fails if it does. -/
structure Attempt where
  built : Bool
  bzImage : Bool
  kbench6Mod : Bool
  initrd : Bool
  qemu : (append : Text) → List UInt8 × List UInt8
  host : Option (List UInt8)
  cpFails : Option Nat

/-- `KPARAMS`, `bench-all:36–41`. -/
def kparams (v : Text) : Option Text :=
  if ["5.7.", "5.8.", "5.9."].any fun series ↦ series.toList.isPrefixOf v then
    some "acpi=off".toList
  else none

/-- The command line of the kernel, `run-kernel:146`. -/
def append (v : Text) : Text :=
  "console=ttyS0 panic=1 oops=panic 8250.nr_uarts=4 ".toList ++ (kparams v).getD []

/-- The output with the description of the host, `run-kernel:155–162`. -/
def describe (output host : List UInt8) : List UInt8 :=
  output ++ Utf8.encode "--- Host\n".toList ++ host

/-- What `run-kernel` does below `results`, `:43–164`. -/
def runKernel (v : Text) (output : Path) (a : Attempt) : List (Effect Path UInt8) :=
  if ¬ (a.bzImage ∧ a.kbench6Mod) then []
  else if ¬ a.initrd then []
  else
    let (console, out) := a.qemu (append v)
    if grepStart "--- Guest".toList out then
      match a.host with
      | none => []
      | some host => performed a.cpFails (copy output (describe out host))
    else performed a.cpFails (copy output.console console)

/-- A version with what a visit to it meets. -/
structure Visit where
  version : Text
  met : Attempt

/-- The body of the loops, `bench-all:30–45`. -/
def visit (fs : Results) (round : Nat) (v : Visit) : List (Effect Path UInt8) :=
  let output := Path.round v.version round
  if ¬ v.met.built then []
  else if (fs output).isSome then []
  else runKernel v.version output v.met

/-- The loops, `bench-all:28–47`: each visit sees what those before it left. -/
def sweep : Results → List (Nat × Visit) → List (Effect Path UInt8)
  | _, [] => []
  | fs, (round, v) :: plan =>
    let es := visit fs round v
    es ++ sweep (replay fs es) plan

/-- `"$@"` behind `[ $# -gt 0 ] || set -- $(cat versions)`, `bench-all:17`. -/
def versions (given : List Text) (listed : Text) : List Text :=
  if given = [] then fields listed else given

/-- A call of `bench-all`: `$ROUNDS`, the versions on its command line, the file `versions`, what it
reads below `cpufreq`, for each round the versions as `shuf` prints them, and after how many effects
it and its `run-kernel` are killed if they are. -/
structure Call where
  rounds : Nat
  given : List Text
  listed : Text
  boost : Nat
  scalingGovernor : Text
  shuffled : Nat → List Visit
  killed : Option Nat
  perm : ∀ round, ((shuffled round).map Visit.version).Perm (versions given listed)

namespace Call

/-- The visits in order. -/
def plan (c : Call) : List (Nat × Visit) :=
  (List.range' 1 c.rounds).flatMap fun round ↦ (c.shuffled round).map (round, ·)

/-- Boost is disabled and the governor is set, `bench-all:19–26`. -/
def Tuned (c : Call) : Prop := c.boost = 0 ∧ c.scalingGovernor = "performance".toList

instance (c : Call) : Decidable c.Tuned := inferInstanceAs (Decidable (_ ∧ _))

/-- What a call does. -/
def effects (fs : Results) (c : Call) : List (Effect Path UInt8) :=
  if c.Tuned then performed c.killed (sweep fs c.plan) else []

end Call

/-- What some calls do, one after the other: a call begins when the processes of the one before
have ended, those of a killed one included. -/
def sessionEffects : Results → List Call → List (Effect Path UInt8)
  | _, [] => []
  | fs, c :: cs =>
    let es := c.effects fs
    es ++ sessionEffects (replay fs es) cs

/-- The files behind some calls. -/
def session (fs : Results) (cs : List Call) : Results := replay fs (sessionEffects fs cs)

/-! ### One visit -/

/-- What `run-kernel` would copy to its output. -/
def Attempt.report? (a : Attempt) (v : Text) : Option (List UInt8) :=
  let out := (a.qemu (append v)).2
  if a.bzImage ∧ a.kbench6Mod ∧ a.initrd ∧ grepStart "--- Guest".toList out then
    a.host.map (describe out)
  else none

/-- An attempt that runs a session and is told what the host of it says leaves its report. -/
theorem Attempt.report?_session {mod : Module} (s : Session mod) {a : Attempt} {v : Text}
    (hbuild : a.bzImage ∧ a.kbench6Mod ∧ a.initrd) (hout : (a.qemu (append v)).2 = s.output)
    (hhost : a.host = some (Utf8.encode (unlines (s.host.map (·.val))))) :
    a.report? v = s.file := by
  have hdescribe : describe s.output (Utf8.encode (unlines (s.host.map (·.val)))) =
      s.output ++ Utf8.encode (unlines s.hostLines) := by
    rw [describe, List.append_assoc, ← Utf8.encode_append]
    rfl
  unfold Attempt.report? Session.file
  dsimp only
  rw [hout, hhost, Option.map_some, hdescribe]
  simp only [hbuild, true_and]

/-- What a visit does to the file of its round if there is none yet. -/
def Attempt.writes (a : Attempt) (v : Text) (output : Path) : List (Effect Path UInt8) :=
  if a.built then
    match a.report? v with
    | none => []
    | some report => performed a.cpFails (copy output report)
  else []

/-- The console of a failed run is not taken for the results of a round. -/
theorem Path.console_ne_round (output : Path) (v : Text) (n : Nat) :
    output.console ≠ round v n := by
  intro h
  have hname : output.name ++ ".console".toList = Nat.toDigits 10 n := congrArg Path.name h
  have hdot : '.' ∈ Nat.toDigits 10 n := by
    rw [← hname]
    exact List.mem_append_right _ (by decide)
  exact absurd (Nat.isDigit_of_mem_toDigits (by decide) (by decide) hdot) (by decide)

/-- Rounds of a version have different files. -/
theorem Path.round_inj {v v' : Text} {n n' : Nat} : round v n = round v' n' ↔ v = v' ∧ n = n' := by
  rw [round, round, Path.mk.injEq]
  apply and_congr_right
  intro _
  constructor
  · intro h
    have hread := congrArg (fun cs ↦ Nat.ofDigitChars 10 cs 0) h
    simpa only [Nat.ofDigitChars_ten_toDigits] using hread
  · exact congrArg _

/-- A killed copy to another file leaves a file alone. -/
private theorem history_performed_of_ne {p p' : Path} (h : p' ≠ p) (stopped : Option Nat)
    (bs : List UInt8) : history p (performed stopped (copy p' bs)) = [] := by
  have hpart := isPrefix_history_performed p stopped (copy p' bs)
  rw [history_copy_of_ne h] at hpart
  exact List.prefix_nil.mp hpart

private theorem history_performed_copy (p : Path) (stopped : Option Nat) (bs : List UInt8) :
    history p (performed stopped (copy p bs)) = performed stopped (copy p bs) := by
  have hall : ∀ e ∈ performed stopped (copy p bs), e.file = p := by
    intro e he
    have hmem : e ∈ history p (copy p bs) := by
      rw [history_copy]
      exact (isPrefix_performed stopped _).mem he
    exact of_decide_eq_true (List.mem_filter.mp hmem).2
  exact List.filter_eq_self.mpr fun e he ↦ decide_eq_true (hall e he)

/-- What `run-kernel` does to the file of its round. -/
theorem history_runKernel (v : Text) (n : Nat) (a : Attempt) :
    history (.round v n) (runKernel v (.round v n) a) =
      match a.report? v with
      | none => []
      | some report => performed a.cpFails (copy (.round v n) report) := by
  unfold runKernel Attempt.report?
  dsimp only
  by_cases hbuilt : a.bzImage ∧ a.kbench6Mod
  · by_cases hinitrd : a.initrd = true
    · by_cases hguest : grepStart "--- Guest".toList (a.qemu (append v)).2 = true
      · rw [if_neg (not_not.mpr hbuilt), if_neg (not_not.mpr hinitrd), if_pos hguest,
          if_pos ⟨hbuilt.1, hbuilt.2, hinitrd, hguest⟩]
        cases a.host with
        | none => rfl
        | some host => exact history_performed_copy _ _ _
      · rw [if_neg (not_not.mpr hbuilt), if_neg (not_not.mpr hinitrd), if_neg hguest,
          if_neg fun h ↦ hguest h.2.2.2]
        exact history_performed_of_ne (Path.console_ne_round _ v n) _ _
    · rw [if_neg (not_not.mpr hbuilt), if_pos hinitrd, if_neg fun h ↦ hinitrd h.2.2.1]
      rfl
  · rw [if_pos hbuilt, if_neg fun h ↦ hbuilt ⟨h.1, h.2.1⟩]
    rfl

/-- `run-kernel` leaves the files of other rounds alone. -/
theorem history_runKernel_of_ne {p : Path} {v v' : Text} {n n' : Nat}
    (hp : p = .round v n) (hne : Path.round v' n' ≠ p) (a : Attempt) :
    history p (runKernel v' (.round v' n') a) = [] := by
  have hconsole : (Path.round v' n').console ≠ p := by
    rw [hp]
    exact Path.console_ne_round _ v n
  unfold runKernel
  dsimp only
  split
  · rfl
  · split
    · rfl
    · split
      · cases a.host with
        | none => rfl
        | some host => exact history_performed_of_ne hne _ _
      · exact history_performed_of_ne hconsole _ _

/-- A visit does something to the file of its round only if there is none. -/
theorem history_visit (fs : Results) (v : Text) (n : Nat) (a : Attempt) :
    history (.round v n) (visit fs n ⟨v, a⟩) =
      if (fs (.round v n)).isSome then [] else a.writes v (.round v n) := by
  unfold visit Attempt.writes
  dsimp only
  by_cases hbuilt : a.built = true
  · rw [if_neg (not_not.mpr hbuilt), if_pos hbuilt]
    split
    · rfl
    · exact history_runKernel v n a
  · rw [if_pos hbuilt, if_neg hbuilt, ite_self]
    rfl

/-- A visit leaves the files of other rounds alone. -/
theorem history_visit_of_ne (fs : Results) {v : Text} {n n' : Nat} {x : Visit}
    (hne : Path.round x.version n' ≠ .round v n) : history (.round v n) (visit fs n' x) = [] := by
  unfold visit
  dsimp only
  split
  · rfl
  · split
    · rfl
    · exact history_runKernel_of_ne rfl hne x.met

/-! ### All visits of a call -/

/-- What is done to the file of a round while it is there. -/
theorem history_sweep_of_isSome {fs : Results} {v : Text} {n : Nat}
    (h : (fs (.round v n)).isSome) (plan : List (Nat × Visit)) :
    history (.round v n) (sweep fs plan) = [] := by
  induction plan generalizing fs with
  | nil => rfl
  | cons x plan ih =>
    obtain ⟨n', v', a⟩ := x
    have hvisit : history (.round v n) (visit fs n' ⟨v', a⟩) = [] := by
      by_cases hpath : Path.round v' n' = .round v n
      · obtain ⟨rfl, rfl⟩ := Path.round_inj.mp hpath
        rw [history_visit, if_pos h]
      · exact history_visit_of_ne fs hpath
    have hkept : (replay fs (visit fs n' ⟨v', a⟩) (.round v n)).isSome := by
      rw [replay_of_history_nil fs hvisit]
      exact h
    rw [sweep, history_append, hvisit, ih hkept]
    rfl

/-- The file of a round is from the first visit that does something to it. -/
theorem history_sweep_of_none {fs : Results} {v : Text} {n : Nat}
    (h : fs (.round v n) = none) (plan : List (Nat × Visit)) :
    (history (.round v n) (sweep fs plan) = [] ∧
        ∀ a, (n, ⟨v, a⟩) ∈ plan → a.writes v (.round v n) = []) ∨
      ∃ a, (n, ⟨v, a⟩) ∈ plan ∧ a.writes v (.round v n) ≠ [] ∧
        history (.round v n) (sweep fs plan) = a.writes v (.round v n) := by
  induction plan generalizing fs with
  | nil => exact Or.inl ⟨rfl, fun a ha ↦ absurd ha List.not_mem_nil⟩
  | cons x plan ih =>
    obtain ⟨n', v', a⟩ := x
    have hnone : ¬ (fs (.round v n)).isSome := by simp [h]
    by_cases hpath : Path.round v' n' = .round v n
    · obtain ⟨rfl, rfl⟩ := Path.round_inj.mp hpath
      have hvisit := history_visit fs v' n' a
      rw [if_neg hnone] at hvisit
      by_cases hwrites : a.writes v' (.round v' n') = []
      · rw [hwrites] at hvisit
        have hkept : replay fs (visit fs n' ⟨v', a⟩) (.round v' n') = none :=
          (replay_of_history_nil fs hvisit).trans h
        rw [sweep, history_append, hvisit, List.nil_append]
        rcases ih hkept with ⟨hnil, hall⟩ | ⟨b, hb, hne, heq⟩
        · refine Or.inl ⟨hnil, fun b hb ↦ ?_⟩
          rcases List.mem_cons.mp hb with heq | hb
          · cases heq
            exact hwrites
          · exact hall b hb
        · exact Or.inr ⟨b, List.mem_cons_of_mem _ hb, hne, heq⟩
      · have hthere : (replay fs (visit fs n' ⟨v', a⟩) (.round v' n')).isSome := by
          apply isSome_replay
          rw [hvisit]
          exact Or.inr hwrites
        refine Or.inr ⟨a, List.mem_cons_self, hwrites, ?_⟩
        rw [sweep, history_append, hvisit, history_sweep_of_isSome hthere, List.append_nil]
    · have hvisit := history_visit_of_ne (x := ⟨v', a⟩) fs hpath
      have hkept : replay fs (visit fs n' ⟨v', a⟩) (.round v n) = none :=
        (replay_of_history_nil fs hvisit).trans h
      rw [sweep, history_append, hvisit, List.nil_append]
      rcases ih hkept with ⟨hnil, hall⟩ | ⟨b, hb, hne, heq⟩
      · refine Or.inl ⟨hnil, fun b hb ↦ ?_⟩
        rcases List.mem_cons.mp hb with heq | hb
        · cases heq
          exact absurd rfl hpath
        · exact hall b hb
      · exact Or.inr ⟨b, List.mem_cons_of_mem _ hb, hne, heq⟩

/-- The visits of a round. -/
theorem mem_plan {c : Call} {n : Nat} {x : Visit} :
    (n, x) ∈ c.plan ↔ (1 ≤ n ∧ n ≤ c.rounds) ∧ x ∈ c.shuffled n := by
  rw [Call.plan, List.mem_flatMap]
  constructor
  · rintro ⟨m, hm, hx⟩
    obtain ⟨y, hy, heq⟩ := List.mem_map.mp hx
    cases heq
    rw [List.mem_range'_1] at hm
    exact ⟨⟨hm.1, by omega⟩, hy⟩
  · rintro ⟨⟨hlow, hhigh⟩, hx⟩
    refine ⟨n, ?_, List.mem_map_of_mem hx⟩
    rw [List.mem_range'_1]
    omega

/-- Each version is visited in each round. -/
theorem exists_mem_plan {c : Call} {v : Text} {n : Nat} (hv : v ∈ versions c.given c.listed)
    (hlow : 1 ≤ n) (hhigh : n ≤ c.rounds) : ∃ a, (n, ⟨v, a⟩) ∈ c.plan := by
  obtain ⟨x, hx, rfl⟩ := List.mem_map.mp ((c.perm n).mem_iff.mpr hv)
  exact ⟨x.met, mem_plan.mpr ⟨⟨hlow, hhigh⟩, hx⟩⟩

/-- A call leaves a file of a round that is there alone. -/
theorem history_effects_of_isSome {fs : Results} {v : Text} {n : Nat}
    (h : (fs (.round v n)).isSome) (c : Call) : history (.round v n) (c.effects fs) = [] := by
  unfold Call.effects
  split
  · have hpart := isPrefix_history_performed (.round v n) c.killed (sweep fs c.plan)
    rw [history_sweep_of_isSome h] at hpart
    exact List.prefix_nil.mp hpart
  · rfl

/-- What a call does to the file of a round that is not there is what one of its visits does, or
the first part of this. -/
theorem history_effects_of_none {fs : Results} {v : Text} {n : Nat}
    (h : fs (.round v n) = none) (c : Call) :
    history (.round v n) (c.effects fs) = [] ∨
      ∃ a, c.Tuned ∧ (n, ⟨v, a⟩) ∈ c.plan ∧
        history (.round v n) (c.effects fs) <+: a.writes v (.round v n) ∧
        (c.killed = none → history (.round v n) (c.effects fs) = a.writes v (.round v n)) := by
  unfold Call.effects
  split
  · next htuned =>
    have hpart := isPrefix_history_performed (.round v n) c.killed (sweep fs c.plan)
    rcases history_sweep_of_none h c.plan with ⟨hnil, -⟩ | ⟨a, ha, -, heq⟩
    · rw [hnil] at hpart
      exact Or.inl (List.prefix_nil.mp hpart)
    · rw [heq] at hpart
      refine Or.inr ⟨a, htuned, ha, hpart, fun hkilled ↦ ?_⟩
      rw [hkilled]
      exact heq
  · exact Or.inl rfl

/-- What a visit does to the file of its round is the copy of a report, or the first part of it. -/
theorem Attempt.writes_prefix {a : Attempt} {v : Text} {p : Path} {es : List (Effect Path UInt8)}
    (h : es <+: a.writes v p) (hne : es ≠ []) :
    ∃ report, a.built ∧ a.report? v = some report ∧ es <+: copy p report ∧
      (a.cpFails = none → es = a.writes v p → es = copy p report) := by
  unfold Attempt.writes at h ⊢
  split at h
  · next hbuilt =>
    cases hreport : a.report? v with
    | none =>
      rw [hreport] at h
      exact absurd (List.prefix_nil.mp h) hne
    | some report =>
      rw [hreport] at h
      refine ⟨report, hbuilt, rfl, h.trans (isPrefix_performed _ _), fun hcp heq ↦ ?_⟩
      rw [if_pos hbuilt, hcp] at heq
      exact heq
  · exact absurd (List.prefix_nil.mp h) hne

/-! ### Calls one after the other -/

/-- The file of a round is from one visit of one call. -/
theorem history_sessionEffects (fs : Results) (cs : List Call) (v : Text) (n : Nat) :
    ((fs (.round v n)).isSome → history (.round v n) (sessionEffects fs cs) = []) ∧
      (fs (.round v n) = none → history (.round v n) (sessionEffects fs cs) = [] ∨
        ∃ c ∈ cs, ∃ a, c.Tuned ∧ (n, ⟨v, a⟩) ∈ c.plan ∧
          history (.round v n) (sessionEffects fs cs) <+: a.writes v (.round v n) ∧
          (c.killed = none →
            history (.round v n) (sessionEffects fs cs) = a.writes v (.round v n))) := by
  induction cs generalizing fs with
  | nil => exact ⟨fun _ ↦ rfl, fun _ ↦ Or.inl rfl⟩
  | cons c cs ih =>
    obtain ⟨hthere, hmissing⟩ := ih (replay fs (c.effects fs))
    constructor
    · intro h
      have hcall := history_effects_of_isSome h c
      have hkept : (replay fs (c.effects fs) (.round v n)).isSome := by
        rw [replay_of_history_nil fs hcall]
        exact h
      rw [sessionEffects, history_append, hcall, hthere hkept]
      rfl
    · intro h
      by_cases hcall : history (.round v n) (c.effects fs) = []
      · have hkept : replay fs (c.effects fs) (.round v n) = none :=
          (replay_of_history_nil fs hcall).trans h
        rw [sessionEffects, history_append, hcall, List.nil_append]
        apply (hmissing hkept).imp_right
        rintro ⟨c', hc', hfound⟩
        exact ⟨c', List.mem_cons_of_mem c hc', hfound⟩
      · have hleft : (replay fs (c.effects fs) (.round v n)).isSome :=
          isSome_replay (Or.inr hcall)
        rw [sessionEffects, history_append, hthere hleft, List.append_nil]
        exact Or.inr ⟨c, List.mem_cons_self, (history_effects_of_none h c).resolve_left hcall⟩

/-- A file of a round stays there. -/
theorem isSome_session {fs : Results} {v : Text} {n : Nat} (cs : List Call)
    (h : (fs (.round v n)).isSome) : (session fs cs (.round v n)).isSome :=
  isSome_replay (Or.inl h)

/-- An attempt that comes to its end with results. -/
def Attempt.Succeeds (a : Attempt) (v : Text) : Prop :=
  a.built ∧ (a.report? v).isSome ∧ a.cpFails = none

/-- After a call that is not killed the file of a round is there if an attempt succeeded. -/
theorem isSome_of_succeeds {fs : Results} {cs : List Call} {c : Call} (hc : c ∈ cs)
    (htuned : c.Tuned) (hkilled : c.killed = none) {v : Text} {n : Nat} {a : Attempt}
    (ha : (n, ⟨v, a⟩) ∈ c.plan) (hsucceeds : a.Succeeds v) :
    (session fs cs (.round v n)).isSome := by
  obtain ⟨hbuilt, hreport, hcp⟩ := hsucceeds
  obtain ⟨report, hreport⟩ := Option.isSome_iff_exists.mp hreport
  have hwrites : a.writes v (.round v n) ≠ [] := by
    rw [Attempt.writes, if_pos hbuilt, hreport, hcp]
    exact List.cons_ne_nil _ _
  induction cs generalizing fs with
  | nil => exact absurd hc List.not_mem_nil
  | cons d cs ih =>
    rw [session, sessionEffects, replay_append]
    rcases List.mem_cons.mp hc with rfl | hc
    · apply isSome_session
      apply isSome_replay
      by_cases hthere : (fs (.round v n)).isSome
      · exact Or.inl hthere
      · right
        rw [Call.effects, if_pos htuned, hkilled]
        rcases history_sweep_of_none (Option.not_isSome_iff_eq_none.mp hthere) c.plan with
          ⟨-, hnone⟩ | ⟨b, -, hne, heq⟩
        · exact absurd (hnone a ha) hwrites
        · exact heq ▸ hne
    · exact ih hc

/-- Calls of `bench-all` that may be killed at any time: a file of a round that is there is not
touched any more, and it is not created twice. Each new one is the report of an attempt of the round
whose machine came to its end, or the first part of the report if `cp` failed or the call was
killed. A call that comes to its end visits each version in each round, and leaves a file for each
visit that succeeds. The console of a failed run is no file of a round, and the report of a machine
that ran a session is the file of the session. -/
theorem session_spec (fs : Results) (cs : List Call) (v : Text) (n : Nat) :
    (∀ bs, fs (.round v n) = some bs → session fs cs (.round v n) = some bs) ∧
      (sessionEffects fs cs).count (.create (.round v n)) ≤
        (if (fs (.round v n)).isSome then 0 else 1) ∧
      (fs (.round v n) = none → ∀ bs, session fs cs (.round v n) = some bs →
        ∃ c ∈ cs, ∃ a report, c.Tuned ∧ (n, ⟨v, a⟩) ∈ c.plan ∧ a.built ∧
          a.report? v = some report ∧ bs <+: report ∧
          (a.cpFails = none → c.killed = none → bs = report)) ∧
      (∀ c ∈ cs, c.Tuned → c.killed = none → v ∈ versions c.given c.listed → 1 ≤ n →
        n ≤ c.rounds → (∃ a, (n, ⟨v, a⟩) ∈ c.plan) ∧
          ∀ a, (n, ⟨v, a⟩) ∈ c.plan → a.Succeeds v →
            (session fs cs (.round v n)).isSome) ∧
      (∀ output : Path, output.console ≠ .round v n) ∧
      ∀ {mod : Module} (s : Session mod) (a : Attempt),
        a.bzImage ∧ a.kbench6Mod ∧ a.initrd → (a.qemu (append v)).2 = s.output →
        a.host = some (Utf8.encode (unlines (s.host.map (·.val)))) → a.report? v = s.file := by
  obtain ⟨hthere, hmissing⟩ := history_sessionEffects fs cs v n
  refine ⟨fun bs hbs ↦ ?_, ?_, fun hnone bs hbs ↦ ?_, fun c hc htuned hkilled hv hlow hhigh ↦
    ⟨exists_mem_plan hv hlow hhigh, fun a ha ↦ isSome_of_succeeds hc htuned hkilled ha⟩,
    fun output ↦ Path.console_ne_round output v n, fun s a ↦ Attempt.report?_session s⟩
  · rw [session, replay_of_history_nil fs (hthere (Option.isSome_of_eq_some hbs)), hbs]
  · rw [← count_create_history]
    split
    · next h => rw [hthere h, List.count_nil]
    · next h =>
      by_cases hnil : history (.round v n) (sessionEffects fs cs) = []
      · rw [hnil]
        exact Nat.zero_le 1
      · obtain ⟨c, -, a, -, -, hpart, -⟩ :=
          (hmissing (Option.not_isSome_iff_eq_none.mp h)).resolve_left hnil
        obtain ⟨report, -, -, hcopy, -⟩ := Attempt.writes_prefix hpart hnil
        rw [← count_create_copy (Path.round v n) report]
        exact hcopy.sublist.count_le _
  · have hnil : history (.round v n) (sessionEffects fs cs) ≠ [] := by
      intro hnil
      rw [session, replay_of_history_nil fs hnil, hnone] at hbs
      cases hbs
    obtain ⟨c, hc, a, htuned, ha, hpart, hwhole⟩ := (hmissing hnone).resolve_left hnil
    obtain ⟨report, hbuilt, hreport, hcopy, hend⟩ := Attempt.writes_prefix hpart hnil
    obtain ⟨cs', hcs', hpart', heq⟩ := replay_prefix_copy fs hcopy hnil
    rw [session, replay_eq_history, hcs'] at hbs
    cases hbs
    exact ⟨c, hc, a, report, htuned, ha, hbuilt, hreport, hpart',
      fun hcp hkilled ↦ heq (hend hcp (hwhole hkilled))⟩

/-- An attempt whose machine comes to its end. -/
def Attempt.sample : Attempt where
  built := true
  bzImage := true
  kbench6Mod := true
  initrd := true
  qemu := fun _ ↦ ([], Utf8.encode "--- Guest\n".toList)
  host := some []
  cpFails := none

/-- Two rounds of two versions, each in another order. -/
def Call.sample (killed : Option Nat) : Call where
  rounds := 2
  given := ["5.8.18".toList, "5.10.1".toList]
  listed := []
  boost := 0
  scalingGovernor := "performance".toList
  shuffled := fun round ↦
    if round = 1 then [⟨"5.8.18".toList, .sample⟩, ⟨"5.10.1".toList, .sample⟩]
    else [⟨"5.10.1".toList, .sample⟩, ⟨"5.8.18".toList, .sample⟩]
  killed
  perm := fun round ↦ by
    split
    · exact .refl _
    · exact .swap ..

/-- A call that is killed within its first copy, and one that comes to its end. -/
theorem twoCalls_session :
    session (fun _ ↦ some []) [.sample (some 3), .sample none] (.round "5.8.18".toList 1) =
        some [] ∧
      (sessionEffects (fun _ ↦ none) [.sample (some 3), .sample none]).count
        (.create (.round "5.8.18".toList 1)) ≤ 1 ∧
      (session (fun _ ↦ none) [.sample (some 3), .sample none]
        (.round "5.10.1".toList 2)).isSome := by
  obtain ⟨hkept, -⟩ := session_spec (fun _ ↦ some []) [.sample (some 3), .sample none]
    "5.8.18".toList 1
  obtain ⟨-, honce, -⟩ := session_spec (fun _ ↦ none) [.sample (some 3), .sample none]
    "5.8.18".toList 1
  obtain ⟨-, -, -, hfilled, -⟩ := session_spec (fun _ ↦ none) [.sample (some 3), .sample none]
    "5.10.1".toList 2
  obtain ⟨-, hsucceeds⟩ := hfilled (.sample none) (List.mem_cons_of_mem _ List.mem_cons_self)
    (by decide) rfl (by decide) (by decide) (by decide)
  refine ⟨hkept [] rfl, honce, hsucceeds .sample (mem_plan.mpr ⟨by decide, ?_⟩) ?_⟩
  · exact List.mem_cons_self
  · exact ⟨rfl, by decide, rfl⟩

end NetworkLab.Kbench.BenchAll
