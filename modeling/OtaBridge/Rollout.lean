import OtaBridge.Apply.Status
import OtaBridge.Transfer.Completion

/-!
# From the server to the next start

The two halves of an update: the transfer of an image to the file of a client, and `ota-apply` on that
file. Nothing but the file connects them. So a machine that applies the file of a client comes up in what
that file held: in the server's image if the client had reported completion and nothing had failed, and in
a front part of it, with exit status 0 just the same, if somebody did not wait for that (`rollout`).
-/

namespace OtaBridge

open Apply Transfer Logic.Crash Logic.Systems

/-- What comes of applying the file of client `c`, to which `read` has transferred `image`. -/
structure RolledOut (conf : Path) (image : List Byte) (read : FileRead) (c : Client) (y : Site) (old : List Byte)
    (run : Outcome Error Nat × Powered Machine) : Prop where
  status : run.1 = .returned 0
  part : c.Part image read
  /-- The next start, whatever survives, is from the slot that was written. -/
  starts : ∀ z, Restart conf (y.after c.stream.file run.2.now) z →
    z.running = y.running.other ∧ z.disk.text z.running.dev = some (overlay c.stream.file old)

/-- **What a machine starts from after a transfer and a run**, of which the run does not fail. -/
theorem rollout {κ : Type} [DecidableEq κ] [Fintype κ] {image : List Byte} {s t : System κ} {read : FileRead}
    (alone : s.Alone image read) (transfer : Relation.ReflTransGen (System.Works image) s t) (k : κ)
    (opened : (t.clients k).opened = true) {conf : Path} {x y : Site} (started : x.Started conf)
    (history : Relation.ReflTransGen (OutageStep conf) x y) (named : y.BootsInto conf y.running) {env : Env}
    {argv : List Text} {args : Args} {old : List Byte} (accepted : parseArgs argv = .args args)
    (wet : args.dryRun = false) (bootconf : args.bootconf = conf)
    (content : y.disk.text y.running.other.dev = some old) (fine : env.Fine (t.clients k).stream.file old) :
    RolledOut conf image read (t.clients k) y old (main env argv ⟨none, ⟨y.cmdline, y.disk, []⟩⟩) := by
  have here : t.Alone image read := invariant_run (fun _ _ => System.Alone.next) alone transfer
  obtain ⟨dev, mirrors⟩ := started.mirrors
  obtain ⟨a, -, mirrors⟩ := (simulates conf dev).run mirrors history
  obtain ⟨status, updated⟩ := mirrors.succeeds named accepted wet bootconf content fine
  have boots := updated.boots named
  have written := updated.target
  rw [content, Option.map_some] at written
  refine ⟨status, (here.hears opened).partly, ?_⟩
  rintro _ ⟨survives, c, s', u, found, configured, detected⟩
  -- nothing is on its way after a success, so what survives is what is read
  obtain ⟨rfl, rfl⟩ := quiet_of_success accepted wet status _ _ survives
  obtain rfl := boots.unique ⟨u, found, configured⟩
  exact ⟨rfl, written⟩

/-- The first of two clients has taken the only chunk of the image `[1, 1]`. -/
def oneTook : System Bool :=
  ⟨fun k => if k then ⟨receivedNote, [], true, true, [], [delivered ⟨0, [1, 1], true⟩]⟩
    else ⟨receivedNote, [], true, true, [⟨0, [1, 1], true⟩], []⟩, [⟨{}, 1⟩]⟩

theorem reached_oneTook : Relation.ReflTransGen (System.Works [1, 1]) twoSubscribed oneTook := by
  have event : (Thread.events [1, 1] ⟨{}, 0⟩)[0]? = some ⟨0, [1, 1], true⟩ :=
    event_small (List.cons_ne_nil 1 [1]) (by decide) 0
  refine .tail (.single ⟨.fire 0, trivial, System.step_fire rfl event⟩) ⟨.deliver true .ok true, trivial, ?_⟩
  refine congrArg some (congrArg (System.mk · _) (funext fun k => ?_))
  cases k <;> rfl

theorem rollout_siteA : RolledOut bootconfPath [1, 1] {} (oneTook.clients true) siteA [0, 0]
    (main wholeEnv (confArgv bootconfPath) ⟨none, ⟨siteA.cmdline, siteA.disk, []⟩⟩) :=
  rollout (alone_twoSubscribed [1, 1]) reached_oneTook true rfl started_siteA .refl fresh_siteA.named
    (parse_confArgv bootconfPath) rfl rfl (layout_siteA.text_dev .B) fine_whole

end OtaBridge
