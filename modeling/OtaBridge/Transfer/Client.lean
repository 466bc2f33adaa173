import OtaBridge.Transfer.Receiver
import OtaBridge.Transfer.Update

/-!
# The `main` of the clients

Both clients wait for the service in the same loop, construct the `FileReceiver`, subscribe, and then
ask for the file. The loop tests whether there is a proxy where it should test whether that is
available, so its first round decides (`starts_safely_iff`). The `FileReceiver` opens its file before
anything is asked, so a run that downloads nothing leaves an empty file wherever it gets to open one
(`keeps_output_iff`).
-/

namespace OtaBridge.Transfer

variable {π : Type}

/-- How far the start-up loop gets with the answers it is given. -/
inductive StartUp (π : Type) where
  /-- It is still in the loop when the answers end. -/
  | waiting
  /-- `proxy->isAvailable()` on a null proxy. -/
  | nullDereference
  /-- Past the loop, with this proxy and the last answer of `isAvailable`. -/
  | ended (proxy : Option π) (available : Option Bool)
  deriving DecidableEq

/-- `while (!proxy)`, over what the calls of `buildProxy` and of `isAvailable` will return. -/
def startUpLoop (proxy : Option π) (available : Option Bool) : List (Option π) → List Bool → StartUp π
  | builds, answers =>
    if proxy.isSome then .ended proxy available
    else
      match builds, answers with
      | [], _ => .waiting
      | none :: _, _ => .nullDereference
      | some _ :: _, [] => .waiting
      | some p :: builds, a :: answers => startUpLoop (some p) (some a) builds answers

def startUp : List (Option π) → List Bool → StartUp π := startUpLoop none none

/-- What a run of the client meets. -/
structure Surroundings (π : Type) where
  builds : List (Option π)
  answers : List Bool
  /-- Whether a missing version file can be created, and whether the output file opens. -/
  creates : Bool
  opens : Bool
  request : UInt32 → CallStatus × UpdateInfo
  /-- What `startTransfer` or `requestFile` leaves in `accepted`. -/
  accepted : Bool
  /-- The chunks that reach the handler. -/
  arrivals : List Arrival

/-- Where the client ends up. -/
inductive Ending where
  | waiting
  | crashed
  | returned (code : Nat)
  /-- In the endless loop behind "Receiving chunks...". -/
  | receiving
  deriving DecidableEq, Repr

/-- A run of the client: the output file afterwards, and the service it called with the last answer of
`isAvailable`. -/
structure ClientRun (π : Type) where
  ending : Ending
  output : FileState
  called : Option (Option π × Option Bool)
  deriving DecidableEq

/-- The version file, which `ensureClientDir` makes if there is none. -/
def ensureClientDir (creates : Bool) (version : FileState) : FileState :=
  match version with
  | some content => some content
  | none => if creates then some (ascii "0") else none

/-- The output file after the constructor of `FileReceiver` and the chunks. -/
def outputAfter (prior : FileState) (opens : Bool) (xs : List Arrival) : FileState :=
  if opens then some (streamAfter receivedNote (.openFile (prior.getD []) true) xs).file else prior

/-- What the two clients share; `asked` is how the calls on the proxy end. -/
def runClient (e : Surroundings π) (prior : FileState) (asked : Ending) : ClientRun π :=
  match startUp e.builds e.answers with
  | .waiting => ⟨.waiting, prior, none⟩
  | .nullDereference => ⟨.crashed, prior, none⟩
  | .ended proxy available => ⟨asked, outputAfter prior e.opens e.arrivals, some (proxy, available)⟩

/-- `main` of the OTA client, where the files hold `prior` and `version`. -/
def clientMain (e : Surroundings π) (prior version : FileState) : ClientRun π :=
  let (status, info) := e.request (clientVersion (ensureClientDir e.creates version))
  runClient e prior <|
    match conclude status info with
    | .requestFailed => .returned 1
    | .noUpdate => .returned 0
    | .upToDate => .returned 0
    | .startTransfer => if e.accepted then .receiving else .returned 1

/-- `main` of the client of the Ubuntu test application. -/
def appsMain (argc : Nat) (e : Surroundings π) (prior : FileState) : ClientRun π :=
  if argc ≠ 2 then ⟨.returned 1, prior, none⟩
  else runClient e prior (if e.accepted then .receiving else .returned 1)

/-! ## Waiting for the service -/

/-- The run called a service, if any, that was there and had said so. -/
def ClientRun.CalledAvailable (r : ClientRun π) : Prop := ∀ c, c ∈ r.called → c.1.isSome ∧ c.2 = some true

/-- The client talks to the service only once it is there. -/
structure StartsSafely (builds : List (Option π)) (answers : List Bool) : Prop where
  noNull : startUp builds answers ≠ .nullDereference
  available : ∀ proxy available, startUp builds answers = .ended proxy available →
    proxy.isSome ∧ available = some true
  called : ∀ e : Surroundings π, e.builds = builds → e.answers = answers → ∀ prior version argc,
    (clientMain e prior version).CalledAvailable ∧ (appsMain argc e prior).CalledAvailable

section StartUp

variable {builds : List (Option π)} {answers : List Bool}

/-- There is no second round. -/
theorem startUp_cases (builds : List (Option π)) (answers : List Bool) : startUp builds answers =
    match builds, answers with
    | [], _ => .waiting
    | none :: _, _ => .nullDereference
    | some _ :: _, [] => .waiting
    | some p :: _, a :: _ => .ended (some p) (some a) := by
  rcases builds with _ | ⟨_ | p, builds⟩
  · rfl
  · rfl
  · cases answers with
    | nil => rfl
    | cons a answers =>
      -- the second test of the loop finds a proxy
      show startUpLoop (some p) (some a) builds answers = .ended (some p) (some a)
      unfold startUpLoop
      exact if_pos rfl

theorem startUp_null_iff : startUp builds answers = .nullDereference ↔ builds.head? = some none := by
  rw [startUp_cases]
  rcases builds with _ | ⟨_ | p, builds⟩
  · simp
  · simp
  · cases answers <;> simp

theorem startUp_ended_iff {proxy : Option π} {available : Option Bool} :
    startUp builds answers = .ended proxy available ↔ ∃ p a, builds.head? = some (some p) ∧
      answers.head? = some a ∧ proxy = some p ∧ available = some a := by
  rw [startUp_cases]
  rcases builds with _ | ⟨_ | p, builds⟩
  · simp
  · simp
  · cases answers <;> simp [eq_comm]

/-- The clients call a service only behind the loop. -/
theorem runClient_called {e : Surroundings π} (safe : ∀ proxy available,
    startUp e.builds e.answers = .ended proxy available → proxy.isSome ∧ available = some true)
    (prior : FileState) (asked : Ending) : (runClient e prior asked).CalledAvailable := by
  intro c called
  unfold runClient at called
  split at called
  · cases called
  · cases called
  · next proxy available loop =>
    obtain rfl := Option.some.inj called
    exact safe proxy available loop

/-- **When the clients wait for the service**: the first proxy is there, and available at once. -/
theorem starts_safely_iff (builds : List (Option π)) (answers : List Bool) :
    StartsSafely builds answers ↔
      ∀ b, b ∈ builds.head? → b.isSome = true ∧ ∀ a, a ∈ answers.head? → a = true := by
  constructor
  · intro safe b built
    cases b with
    | none => exact absurd (startUp_null_iff.2 built) safe.noNull
    | some p =>
      refine ⟨rfl, fun a said => ?_⟩
      obtain ⟨-, available⟩ := safe.available _ _ (startUp_ended_iff.2 ⟨p, a, built, said, rfl, rfl⟩)
      exact Option.some.inj available
  · intro good
    have available : ∀ proxy available, startUp builds answers = .ended proxy available →
        proxy.isSome ∧ available = some true := by
      intro proxy available ended
      obtain ⟨p, a, built, said, rfl, rfl⟩ := startUp_ended_iff.1 ended
      exact ⟨rfl, congrArg some ((good _ built).2 a said)⟩
    refine ⟨fun null => ?_, available, ?_⟩
    · exact absurd (good none (startUp_null_iff.1 null)).1 Bool.false_ne_true
    · rintro e rfl rfl prior version argc
      refine ⟨runClient_called available prior _, ?_⟩
      unfold appsMain
      split
      · exact fun c called => absurd called (by simp)
      · exact runClient_called available prior _

/-- A service that is not available yet. -/
theorem not_starts_safely_early : ¬ ∀ (builds : List (Option Unit)) answers, StartsSafely builds answers := by
  intro always
  obtain ⟨-, said⟩ := (always [some ()] [false]).available (some ()) (some false) (startUp_cases _ _)
  cases said

end StartUp

/-! ## The output file -/

/-- No transfer is accepted, and no chunk comes. -/
structure DownloadsNothing (e : Surroundings π) (prior version : FileState) : Prop where
  idle : (clientMain e prior version).ending ≠ .receiving
  silent : e.arrivals = []

/-- The loop ends, and then the output file opens. -/
def OpensOutput (e : Surroundings π) : Prop :=
  (∃ proxy available, startUp e.builds e.answers = .ended proxy available) ∧ e.opens = true

/-- **When a run that downloads nothing keeps the output file**: it does not get to open it, or the
file is there and empty. -/
theorem keeps_output_iff (e : Surroundings π) (prior version : FileState) (h : DownloadsNothing e prior version) :
    (clientMain e prior version).output = prior ↔ (OpensOutput e → prior = some []) := by
  unfold clientMain runClient OpensOutput
  cases loop : startUp e.builds e.answers with
  | waiting => simp
  | nullDereference => simp
  | ended proxy available =>
    rw [h.silent]
    cases opens : e.opens with
    | false => simp [outputAfter]
    | true =>
      have empty : outputAfter prior true [] = some [] := rfl
      simp [empty, eq_comm]

/-- The client is up to date. -/
def upToDateRun : Surroundings Unit where
  builds := [some ()]
  answers := [true]
  creates := true
  opens := true
  request _ := (.success, ⟨true, false, 3, 1, 0, 0⟩)
  accepted := false
  arrivals := []

theorem keeps_output_up_to_date : (clientMain upToDateRun (some [1]) (some (ascii "3"))).output = some [1] ↔
    (OpensOutput upToDateRun → (some [1] : FileState) = some []) :=
  keeps_output_iff upToDateRun (some [1]) (some (ascii "3")) ⟨by decide, rfl⟩

/-- The image downloaded before is gone. -/
theorem not_keeps_output_up_to_date : ¬ ∀ (e : Surroundings Unit) (prior version : FileState),
    DownloadsNothing e prior version → (clientMain e prior version).output = prior := by
  intro keeps
  have same := keeps upToDateRun (some [1]) (some (ascii "3")) ⟨by decide, rfl⟩
  exact absurd same (by decide)

end OtaBridge.Transfer
