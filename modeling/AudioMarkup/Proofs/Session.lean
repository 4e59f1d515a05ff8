import AudioMarkup.Proofs.Disk
import AudioMarkup.Session

/-!
Runs of the program are all or nothing. A run either goes through all of its steps and puts its
output in one place, or it fails and leaves everything as it was; and a usual settings file that is
broken counts for no more than one that is missing.

None of this depends on what settings files look like, so it is stated for an arbitrary way to
decode them.
-/

namespace AudioMarkup

namespace Session

variable (decode : String → Except Yaml.Fault Settings) (surroundings : Surroundings)
  (time : String) (invocation : Invocation)

def compiled? (settings : Settings) : Option (String × Disk) :=
  (readSource surroundings invocation.input?).toOption.bind fun source =>
    (invocation.output.render settings.context source).toOption.bind fun output =>
      (deliver surroundings.disk output invocation.outfile?).toOption

def delivery? : Option (String × Disk) :=
  (SettingsFile.resolveWith decode surroundings.disk invocation.settings?
    surroundings.usualSettings?).toOption.bind fun resolved =>
      compiled? surroundings invocation resolved.1

theorem compile_eq (settings : Settings) :
    (compile surroundings invocation settings).failure?.isSome =
        (compiled? surroundings invocation settings).isNone ∧
      ((compile surroundings invocation settings).printed,
          (compile surroundings invocation settings).disk) =
        (compiled? surroundings invocation settings).getD ("", surroundings.disk) := by
  unfold compile compiled?
  cases readSource surroundings invocation.input? with
  | error failure => exact ⟨rfl, rfl⟩
  | ok source =>
      cases rendered : invocation.output.render settings.context source with
      | error diagnostic =>
          simp only [Except.toOption, Option.bind_some, rendered]
          exact ⟨rfl, rfl⟩
      | ok output =>
          cases delivered : deliver surroundings.disk output invocation.outfile? with
          | error failure =>
              simp only [Except.toOption, Option.bind_some, rendered, delivered]
              exact ⟨rfl, rfl⟩
          | ok delivery =>
              simp only [Except.toOption, Option.bind_some, rendered, delivered]
              exact ⟨rfl, rfl⟩

/-- The exit code of a run, what it prints and the disk it leaves. -/
theorem invokeWith_eq :
    (invokeWith decode surroundings time invocation).exitCode =
        (if (delivery? decode surroundings invocation).isSome then 0 else 1) ∧
      ((invokeWith decode surroundings time invocation).printed,
          (invokeWith decode surroundings time invocation).disk) =
        (delivery? decode surroundings invocation).getD ("", surroundings.disk) := by
  unfold invokeWith delivery?
  cases SettingsFile.resolveWith decode surroundings.disk invocation.settings?
      surroundings.usualSettings? with
  | error failure => exact ⟨rfl, rfl⟩
  | ok resolved =>
      obtain ⟨failed, left⟩ := compile_eq surroundings invocation resolved.1
      refine ⟨?_, left⟩
      show (if (compile surroundings invocation resolved.1).failure?.isSome then 1 else 0 : UInt32) =
        if (compiled? surroundings invocation resolved.1).isSome then 0 else 1
      cases made : compiled? surroundings invocation resolved.1 with
      | none => simp [failed, made]
      | some delivery => simp [failed, made]

/-! ### All or nothing -/

/-- Every step of a run succeeds, and the output is what is rendered for the source with the context
of the settings. -/
def Completes (output : String) : Prop :=
  ∃ settings warning? source,
    SettingsFile.resolveWith decode surroundings.disk invocation.settings?
      surroundings.usualSettings? = .ok (settings, warning?) ∧
    readSource surroundings invocation.input? = .ok source ∧
    invocation.output.render settings.context source = .ok output ∧
    ∀ path ∈ invocation.outfile?, ∃ after, surroundings.disk.writeText path output = .ok after

/-- The output is in one place, and all else is as it was. -/
def Delivers (before : Disk) (outfile? : Option String) (output printed : String) (after : Disk) :
    Prop :=
  match outfile? with
  | none => printed = output ∧ after = before
  | some path => printed = "" ∧ after.readText path = .ok output ∧
      Disk.AgreeBut (Disk.names path) before after

variable {decode surroundings time invocation}

theorem exists_deliver_iff {disk : Disk} {output : String} {outfile? : Option String} :
    (∃ delivery, deliver disk output outfile? = .ok delivery) ↔
      ∀ path ∈ outfile?, ∃ after, disk.writeText path output = .ok after := by
  cases outfile? with
  | none => simp [deliver]
  | some path =>
      cases written : disk.writeText path output with
      | error fault => simp [deliver, written, Except.mapError, Except.map]
      | ok after => simp [deliver, written, Except.mapError, Except.map]

theorem delivers_of_deliver {disk : Disk} {output : String} {outfile? : Option String}
    {delivery : String × Disk} (delivered : deliver disk output outfile? = .ok delivery) :
    Delivers disk outfile? output delivery.1 delivery.2 := by
  cases outfile? with
  | none =>
      cases delivered
      exact ⟨rfl, rfl⟩
  | some path =>
      cases written : disk.writeText path output with
      | error fault =>
          rw [deliver, written] at delivered
          cases delivered
      | ok after =>
          rw [deliver, written] at delivered
          cases delivered
          have writes := Disk.writes_of_writeText written
          exact ⟨rfl, writes.readText, writes.agree⟩

theorem delivery?_eq_some {delivery : String × Disk}
    (delivered : delivery? decode surroundings invocation = some delivery) :
    ∃ output, Completes decode surroundings invocation output := by
  obtain ⟨resolved, resolves, compiled⟩ := Option.bind_eq_some_iff.mp delivered
  obtain ⟨source, read, compiled⟩ := Option.bind_eq_some_iff.mp compiled
  obtain ⟨output, rendered, placed⟩ := Option.bind_eq_some_iff.mp compiled
  rw [Disk.toOption_eq_some_iff] at resolves read rendered placed
  exact ⟨output, resolved.1, resolved.2, source, resolves, read, rendered,
    exists_deliver_iff.mp ⟨delivery, placed⟩⟩

theorem Completes.delivery? {output : String}
    (completes : Completes decode surroundings invocation output) :
    ∃ delivery, Session.delivery? decode surroundings invocation = some delivery ∧
      deliver surroundings.disk output invocation.outfile? = .ok delivery := by
  obtain ⟨settings, warning?, source, resolved, read, rendered, writable⟩ := completes
  obtain ⟨delivery, delivered⟩ := exists_deliver_iff.mpr writable
  refine ⟨delivery, ?_, delivered⟩
  simp only [Session.delivery?, compiled?, resolved, read, rendered, delivered, Except.toOption,
    Option.bind_some]

/-! ### A broken settings file -/

/-- Both deliver nothing, or both the same: what is printed, and what the disk holds elsewhere than
in one place. -/
inductive SameDelivery (place : List String) :
    Option (String × Disk) → Option (String × Disk) → Prop where
  | nothing : SameDelivery place none none
  | output {printed : String} {first second : Disk} : Disk.AgreeBut place first second →
      SameDelivery place (some (printed, first)) (some (printed, second))

structure Removes (place : List String) (disk missing : Disk) : Prop where
  present : ∃ content, disk.entryAt? place = some (.file content)
  absent : missing.entryAt? place = none
  agree : Disk.AgreeBut place disk missing

theorem Removes.sameFolders {place : List String} {disk missing : Disk}
    (removes : Removes place disk missing) : Disk.SameFolders disk missing := by
  obtain ⟨content, present⟩ := removes.present
  apply removes.agree.sameFolders
  · rw [present]
    simp
  · rw [removes.absent]
    simp

theorem Removes.readText {place : List String} {disk missing : Disk}
    (removes : Removes place disk missing) {path : String} (elsewhere : Disk.names path ≠ place) :
    (disk.readText path).toOption = (missing.readText path).toOption := by
  have found := removes.sameFolders.find (removes.agree _ elsewhere)
  rw [Disk.readText, Disk.readText, Disk.toOption_bind, Disk.toOption_bind, found]

theorem Removes.deliver {place : List String} {disk missing : Disk}
    (removes : Removes place disk missing) {outfile? : Option String}
    (elsewhere : ∀ path ∈ outfile?, Disk.names path ≠ place) (output : String) :
    SameDelivery place (deliver disk output outfile?).toOption
      (deliver missing output outfile?).toOption := by
  cases outfile? with
  | none => exact .output removes.agree
  | some path =>
      have possible : (disk.writeText path output).toOption.isSome =
          (missing.writeText path output).toOption.isSome := by
        rw [Disk.isSome_writeText, Disk.isSome_writeText, removes.sameFolders.target]
      rw [Session.deliver, Session.deliver]
      cases written : disk.writeText path output with
      | error fault =>
          cases otherWritten : missing.writeText path output with
          | error otherFault => exact .nothing
          | ok second =>
              rw [written, otherWritten] at possible
              cases possible
      | ok first =>
          cases otherWritten : missing.writeText path output with
          | error otherFault =>
              rw [written, otherWritten] at possible
              cases possible
          | ok second =>
              have writes := Disk.writes_of_writeText written
              have otherWrites := Disk.writes_of_writeText otherWritten
              refine .output fun names notPlace => ?_
              by_cases here : names = Disk.names path
              · rw [here, writes.entry, otherWrites.entry]
              · rw [← writes.agree names here, ← otherWrites.agree names here,
                  removes.agree names notPlace]

theorem Removes.readSource {place : List String} {missing : Disk}
    (removes : Removes place surroundings.disk missing) {input? : Option String}
    (elsewhere : ∀ path ∈ input?, Disk.names path ≠ place) :
    (readSource surroundings input?).toOption =
      (readSource { surroundings with disk := missing } input?).toOption := by
  have unmapped (result : Except Disk.Fault String) :
      (result.mapError Failure.disk).toOption = result.toOption := by
    cases result with
    | error _ => rfl
    | ok _ => rfl
  cases input? with
  | none => rfl
  | some path =>
      rw [Session.readSource, Session.readSource, unmapped, unmapped]
      exact removes.readText (elsewhere path rfl)

/-- With a usual settings file that cannot be loaded, or with none, the defaults are used. -/
theorem delivery?_of_default {path : String} (unnamed : invocation.settings? = none)
    (usual : surroundings.usualSettings? = some path)
    (unusable : surroundings.disk.contains path = true →
      ∃ fault, SettingsFile.loadWith decode surroundings.disk path = .error fault) :
    delivery? decode surroundings invocation =
      compiled? surroundings invocation .default := by
  rw [delivery?, unnamed, usual, SettingsFile.resolveWith, SettingsFile.loadWith?]
  by_cases present : surroundings.disk.contains path = true
  · obtain ⟨fault, failed⟩ := unusable present
    rw [if_pos present, failed]
    rfl
  · rw [if_neg present]
    rfl

/-- A usual settings file that is broken leads to the same as none. -/
theorem sameDelivery_of_broken {missing : Disk} {path : String}
    (unnamed : invocation.settings? = none) (usual : surroundings.usualSettings? = some path)
    (broken : ∃ fault, SettingsFile.loadWith decode surroundings.disk path = .error fault)
    (removes : Removes (Disk.names path) surroundings.disk missing)
    (notInput : ∀ input ∈ invocation.input?, Disk.names input ≠ Disk.names path)
    (notOutfile : ∀ outfile ∈ invocation.outfile?, Disk.names outfile ≠ Disk.names path) :
    SameDelivery (Disk.names path) (delivery? decode surroundings invocation)
      (delivery? decode { surroundings with disk := missing } invocation) := by
  have absent : missing.contains path = true →
      ∃ fault, SettingsFile.loadWith decode missing path = .error fault := by
    intro present
    rw [Disk.contains_of_absent removes.absent] at present
    cases present
  have withoutFile : delivery? decode { surroundings with disk := missing } invocation =
      compiled? { surroundings with disk := missing } invocation .default :=
    delivery?_of_default unnamed usual absent
  rw [delivery?_of_default unnamed usual fun _ => broken, withoutFile, compiled?, compiled?,
    ← removes.readSource notInput]
  cases (readSource surroundings invocation.input?).toOption with
  | none => exact .nothing
  | some source =>
      rw [Option.bind_some, Option.bind_some]
      cases (invocation.output.render Settings.default.context source).toOption with
      | none => exact .nothing
      | some output => exact removes.deliver notOutfile output

/-! ### Runs -/

theorem exitCode_eq_zero_iff :
    (invokeWith decode surroundings time invocation).exitCode = 0 ↔
      ∃ output, Completes decode surroundings invocation output := by
  rw [(invokeWith_eq decode surroundings time invocation).1]
  constructor
  · intro zero
    cases made : delivery? decode surroundings invocation with
    | none =>
        rw [made] at zero
        cases zero
    | some delivery => exact delivery?_eq_some made
  · rintro ⟨output, completes⟩
    obtain ⟨delivery, made, _⟩ := completes.delivery?
    rw [made]
    rfl

theorem unchanged_of_exitCode_ne_zero
    (failed : (invokeWith decode surroundings time invocation).exitCode ≠ 0) :
    (invokeWith decode surroundings time invocation).exitCode = 1 ∧
      (invokeWith decode surroundings time invocation).printed = "" ∧
      (invokeWith decode surroundings time invocation).disk = surroundings.disk := by
  obtain ⟨exitCode, left⟩ := invokeWith_eq decode surroundings time invocation
  cases made : delivery? decode surroundings invocation with
  | none =>
      rw [made] at exitCode left
      exact ⟨exitCode, congrArg Prod.fst left, congrArg Prod.snd left⟩
  | some delivery =>
      rw [made] at exitCode
      exact absurd exitCode failed

theorem Completes.delivers {output : String}
    (completes : Completes decode surroundings invocation output) :
    Delivers surroundings.disk invocation.outfile? output
      (invokeWith decode surroundings time invocation).printed
      (invokeWith decode surroundings time invocation).disk := by
  obtain ⟨_, left⟩ := invokeWith_eq decode surroundings time invocation
  obtain ⟨delivery, made, delivered⟩ := completes.delivery?
  rw [made, Option.getD_some] at left
  rw [← left] at delivered
  exact delivers_of_deliver delivered

/-- What one run leaves and what another leaves that delivers the same. -/
theorem SameDelivery.outcome {place : List String} {other : Surroundings}
    (same : SameDelivery place (delivery? decode surroundings invocation)
      (delivery? decode other invocation))
    (agree : Disk.AgreeBut place surroundings.disk other.disk) :
    (invokeWith decode other time invocation).exitCode =
        (invokeWith decode surroundings time invocation).exitCode ∧
      (invokeWith decode other time invocation).printed =
        (invokeWith decode surroundings time invocation).printed ∧
      Disk.AgreeBut place (invokeWith decode surroundings time invocation).disk
        (invokeWith decode other time invocation).disk := by
  obtain ⟨exitCode, left⟩ := invokeWith_eq decode surroundings time invocation
  obtain ⟨otherCode, otherLeft⟩ := invokeWith_eq decode other time invocation
  rw [exitCode, otherCode]
  generalize delivery? decode surroundings invocation = delivery at left same ⊢
  generalize delivery? decode other invocation = otherDelivery at otherLeft same ⊢
  cases same with
  | nothing =>
      obtain ⟨printed, disk⟩ := Prod.mk.inj left
      obtain ⟨otherPrinted, otherDisk⟩ := Prod.mk.inj otherLeft
      rw [printed, disk, otherPrinted, otherDisk]
      exact ⟨rfl, rfl, agree⟩
  | output agree =>
      obtain ⟨printed, disk⟩ := Prod.mk.inj left
      obtain ⟨otherPrinted, otherDisk⟩ := Prod.mk.inj otherLeft
      rw [printed, disk, otherPrinted, otherDisk]
      exact ⟨rfl, rfl, agree⟩

/-- A run exits with zero if and only if all of its steps succeed. Otherwise it exits with one,
prints nothing and leaves the disk as it was. If it succeeds, the output is in its place and nothing
else has changed. A usual settings file that is broken makes no difference, but for itself, from one
that is missing. -/
theorem invokeWith_all_or_nothing (decode : String → Except Yaml.Fault Settings)
    (surroundings : Surroundings) (time : String) (invocation : Invocation) :
    invoke surroundings time invocation = invokeWith Settings.decode surroundings time invocation ∧
    ((invokeWith decode surroundings time invocation).exitCode = 0 ↔
      ∃ output, Completes decode surroundings invocation output) ∧
    ((invokeWith decode surroundings time invocation).exitCode ≠ 0 →
      (invokeWith decode surroundings time invocation).exitCode = 1 ∧
      (invokeWith decode surroundings time invocation).printed = "" ∧
      (invokeWith decode surroundings time invocation).disk = surroundings.disk) ∧
    (∀ output, Completes decode surroundings invocation output →
      Delivers surroundings.disk invocation.outfile? output
        (invokeWith decode surroundings time invocation).printed
        (invokeWith decode surroundings time invocation).disk) ∧
    ∀ path missing, invocation.settings? = none → surroundings.usualSettings? = some path →
      (∃ fault, SettingsFile.loadWith decode surroundings.disk path = .error fault) →
      Removes (Disk.names path) surroundings.disk missing →
      (∀ input ∈ invocation.input?, Disk.names input ≠ Disk.names path) →
      (∀ outfile ∈ invocation.outfile?, Disk.names outfile ≠ Disk.names path) →
      (invokeWith decode { surroundings with disk := missing } time invocation).exitCode =
          (invokeWith decode surroundings time invocation).exitCode ∧
        (invokeWith decode { surroundings with disk := missing } time invocation).printed =
          (invokeWith decode surroundings time invocation).printed ∧
        Disk.AgreeBut (Disk.names path) (invokeWith decode surroundings time invocation).disk
          (invokeWith decode { surroundings with disk := missing } time invocation).disk := by
  refine ⟨rfl, exitCode_eq_zero_iff,
    unchanged_of_exitCode_ne_zero, fun output completes => completes.delivers, ?_⟩
  intro path missing unnamed usual broken removes notInput notOutfile
  have same := sameDelivery_of_broken unnamed usual broken removes notInput notOutfile
  exact same.outcome removes.agree

/-- A run that puts its script in the place of its source, with a usual settings file that is no
text. -/
theorem invokeWith_all_or_nothing_of_own_source :
    ∃ surroundings missing invocation,
      surroundings.disk = ⟨[(["c"], .file ⟨#[255]⟩), (["in"], .file "Constant a\x7b\x7d".toUTF8)]⟩ ∧
      surroundings.usualSettings? = some "c" ∧
      missing = ⟨[(["in"], .file "Constant a\x7b\x7d".toUTF8)]⟩ ∧
      invocation.input? = some "in" ∧ invocation.outfile? = some "in" ∧
      (invoke surroundings "" invocation).exitCode = 0 ∧
      (invoke surroundings "" invocation).disk.readText "in" =
        .ok ("(function()\x7b\nvar audioCtx=" ++
          "new (window.AudioContext||window.webkitAudioContext)();\nvar a=0;\n\x7d)();\n") ∧
      (invoke { surroundings with disk := missing } "" invocation).exitCode = 0 := by
  let disk : Disk := ⟨[(["c"], .file ⟨#[255]⟩), (["in"], .file "Constant a\x7b\x7d".toUTF8)]⟩
  let missing : Disk := ⟨[(["in"], .file "Constant a\x7b\x7d".toUTF8)]⟩
  let surroundings : Surroundings := ⟨disk, some "c", .empty, none⟩
  let invocation : Invocation := ⟨some "in", some "in", none, .script⟩
  have inFolder : missing.entryAt? [] = some .folder := by decide +kernel
  have agree : Disk.AgreeBut (Disk.names "c") disk missing := fun names elsewhere =>
    (Disk.agreeBut_of_folder (.file ⟨#[255]⟩) inFolder names elsewhere).symm
  have completes : Completes Settings.decode surroundings invocation
      ("(function()\x7b\nvar audioCtx=" ++
        "new (window.AudioContext||window.webkitAudioContext)();\nvar a=0;\n\x7d)();\n") := by
    refine ⟨.default, some (.settings "c" (.disk .notText)), "Constant a\x7b\x7d",
      by decide +kernel, by decide +kernel, by decide +kernel, ?_⟩
    intro path named
    cases named
    exact ⟨_, rfl⟩
  have removes : Removes (Disk.names "c") disk missing :=
    ⟨⟨⟨#[255]⟩, by decide +kernel⟩, by decide +kernel, agree⟩
  obtain ⟨run, zero, _, delivers, unaffected⟩ :=
    invokeWith_all_or_nothing Settings.decode surroundings "" invocation
  obtain ⟨sameCode, _⟩ := unaffected "c" missing rfl rfl ⟨.disk .notText, by decide +kernel⟩ removes
    (by decide +kernel) (by decide +kernel)
  refine ⟨surroundings, missing, invocation, rfl, rfl, rfl, rfl, rfl, ?_, ?_, ?_⟩
  · rw [run]
    exact zero.mpr ⟨_, completes⟩
  · rw [run]
    exact (delivers _ completes).2.1
  · exact sameCode.trans (zero.mpr ⟨_, completes⟩)

end Session
end AudioMarkup
