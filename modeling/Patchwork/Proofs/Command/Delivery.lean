import Patchwork.Proofs.Command.Writing
import Patchwork.Proofs.Output.Closing

/-!
# What a command leaves behind

A command that is given a file fails where this file cannot be read, where its text has no design,
or where the design cannot be written, and then it prints nothing and leaves all files as they were.
Otherwise it prints the whole design or writes it to one file. This holds on every host on which
reading changes no file and writing succeeds whole or changes none, whatever keeps it from reading
or writing.
-/

namespace Patchwork

namespace Command

section Hosts

variable {World Site : Type}

/-- What can be told of the files in a world: what is in them, and to which one a path leads. -/
structure View (World Site : Type) where
  file? : World → Site → Option ByteArray
  leads : World → String → Site → Prop

namespace View

def Unchanged (view : View World Site) (before after : World) : Prop :=
  ∀ site, view.file? after site = view.file? before site

/-- The path leads to a file with this text, and all other files are as before. -/
def Written (view : View World Site) (before : World) (path text : String) (after : World) : Prop :=
  ∃ site, view.leads after path site ∧ view.file? after site = some text.toUTF8 ∧
    ∀ other, other ≠ site → view.file? after other = view.file? before other

end View

namespace Host

/-- Reading changes no file, and a write succeeds whole or changes none. -/
structure Reliable (host : Host (StateM World)) (view : View World Site) : Prop where
  input : ∀ before, view.Unchanged before (host.input.run before).2
  readFile : ∀ path before, view.Unchanged before ((host.readFile path).run before).2
  written : ∀ {path text before after},
    (host.writeFile path text).run before = (.ok (), after) → view.Written before path text after
  unwritten : ∀ {path text before after trouble},
    (host.writeFile path text).run before = (.error trouble, after) → view.Unchanged before after

/-- What is read for a file. A dash stands for the standard input. -/
def bytes (host : Host (StateM World)) (file : String) :
    StateM World (Except Trouble ByteArray) :=
  if file = "-" then host.input else host.readFile file

/-- What is read is the encoding of the text. -/
def Gives (host : Host (StateM World)) (file : String) (before : World) (text : String)
    (after : World) : Prop :=
  (host.bytes file).run before = (.ok text.toUTF8, after)

end Host

/-- Why a command comes to nothing: no text is read, or the text has no design, or the design is not
written where it was asked for. -/
inductive Fails (host : Host (StateM World)) (options : Options) (file : String)
    (before : World) : Prop
  | reading (unread : ∀ text after, ¬host.Gives file before text after)
  | evaluating {text : String} {between : World} {failure : Failure Float}
      (given : host.Gives file before text between)
      (failed : designOfText options.limits text = .error failure)
  | writing {text path : String} {between after : World} {d : Design Float} {trouble : Trouble}
      (given : host.Gives file before text between)
      (drafted : designOfText options.limits text = .ok d) (asked : options.output = some path)
      (unwritten : (host.writeFile path (d.render options.style)).run between =
        (.error trouble, after))

variable {host : Host (StateM World)} {view : View World Site} {options : Options}
variable {file text : String} {before between after : World}

section Views

theorem View.Unchanged.trans (first : view.Unchanged before between)
    (second : view.Unchanged between after) : view.Unchanged before after :=
  fun site => (second site).trans (first site)

/-- What is written after nothing was changed is written. -/
theorem View.Unchanged.written {path : String} (first : view.Unchanged before between)
    (second : view.Written between path text after) : view.Written before path text after := by
  obtain ⟨site, leads, found, others⟩ := second
  exact ⟨site, leads, found, fun other apart => (others other apart).trans (first other)⟩

theorem Host.Reliable.bytes (reliable : host.Reliable view) (file : String) (before : World) :
    view.Unchanged before ((host.bytes file).run before).2 := by
  rw [Host.bytes]
  split
  · exact reliable.input before
  · exact reliable.readFile file before

theorem Host.Reliable.gives (reliable : host.Reliable view)
    (given : host.Gives file before text between) : view.Unchanged before between := by
  have same := reliable.bytes file before
  rwa [given] at same

end Views

section Runs

theorem decode_toUTF8 (text : String) : decode text.toUTF8 = .ok text := by
  rw [decode, String.fromUTF8?, dif_pos (show text.toUTF8.IsValidUTF8 from text.isValidUTF8)]
  rfl

theorem eq_toUTF8_of_decode {bytes : ByteArray} (decoded : decode bytes = .ok text) :
    bytes = text.toUTF8 := by
  rw [decode, String.fromUTF8?] at decoded
  split at decoded
  · next found =>
    split at found
    · cases found
      cases decoded
      rfl
    · cases found
  · cases decoded

theorem Host.Gives.unique {text' : String} {between' : World}
    (given : host.Gives file before text between) (given' : host.Gives file before text' between') :
    text = text' ∧ between = between' := by
  obtain ⟨found, rfl⟩ := Prod.mk.inj (given.symm.trans given')
  have decoded := decode_toUTF8 text
  rw [Except.ok.inj found, decode_toUTF8] at decoded
  exact ⟨(Except.ok.inj decoded).symm, rfl⟩

theorem source_run (host : Host (StateM World)) (file : String) (before : World) :
    ∃ doing, (host.source file).run before =
      ((((host.bytes file).run before).1.bind decode).mapError (troubleText doing),
        ((host.bytes file).run before).2) := by
  rw [Host.source, Host.bytes]
  split
  · exact ⟨_, rfl⟩
  · exact ⟨_, rfl⟩

theorem source_of_gives (given : host.Gives file before text between) :
    (host.source file).run before = (.ok text, between) := by
  obtain ⟨doing, ran⟩ := source_run host file before
  rw [ran, given]
  change ((decode text.toUTF8).mapError _, between) = _
  rw [decode_toUTF8]
  rfl

theorem source_of_unread (unread : ∀ text after, ¬host.Gives file before text after) :
    ∃ message, (host.source file).run before =
      (.error message, ((host.bytes file).run before).2) := by
  obtain ⟨doing, ran⟩ := source_run host file before
  rw [ran]
  cases decoded : ((host.bytes file).run before).1.bind decode with
  | error trouble => exact ⟨_, rfl⟩
  | ok text =>
    obtain ⟨bytes, found, same⟩ := bind_eq_ok.1 decoded
    cases eq_toUTF8_of_decode same
    have given : host.Gives file before text ((host.bytes file).run before).2 := Prod.ext found rfl
    exact absurd given (unread text _)

theorem evaluate_of_unread (unread : ∀ text after, ¬host.Gives file before text after) :
    ∃ message, (host.evaluate options file).run before =
      (.failed message, ((host.bytes file).run before).2) := by
  obtain ⟨message, ran⟩ := source_of_unread unread
  rw [Host.evaluate, StateT.run_bind, ran]
  exact ⟨message, rfl⟩

/-- A file is only written behind everything else. -/
theorem evaluate_of_gives (given : host.Gives file before text between) :
    (host.evaluate options file).run before =
      match options.render text with
      | .error message => (.failed message, between)
      | .ok text => (host.deliver options.output text).run between := by
  rw [Host.evaluate, StateT.run_bind, source_of_gives given]
  change StateT.run (match options.render text with
    | .error message => pure (Outcome.failed message)
    | .ok text => host.deliver options.output text) between = _
  cases options.render text <;> rfl

theorem evaluate_of_failed {failure : Failure Float} (given : host.Gives file before text between)
    (failed : designOfText options.limits text = .error failure) :
    (host.evaluate options file).run before = (.failed failure.message, between) := by
  rw [evaluate_of_gives given, Options.render, failed]

theorem evaluate_of_drafted {d : Design Float} (given : host.Gives file before text between)
    (drafted : designOfText options.limits text = .ok d) :
    (host.evaluate options file).run before =
      (host.deliver options.output (d.render options.style)).run between := by
  rw [evaluate_of_gives given, Options.render, drafted]

theorem deliver_run (host : Host (StateM World)) (path text : String) (before : World) :
    (host.deliver (some path) text).run before =
      match (host.writeFile path text).run before with
      | (.ok (), after) => (.silent, after)
      | (.error trouble, after) => (.failed (troubleText ("writing " ++ path) trouble), after) := by
  rw [Host.deliver, StateT.run_bind]
  obtain ⟨sent, after⟩ := (host.writeFile path text).run before
  cases sent <;> rfl

end Runs

theorem Fails.run (reliable : host.Reliable view) (fails : Fails host options file before) :
    ∃ message after, (host.evaluate options file).run before = (.failed message, after) ∧
      view.Unchanged before after := by
  cases fails with
  | reading unread =>
    obtain ⟨message, ran⟩ := evaluate_of_unread unread
    exact ⟨message, _, ran, reliable.bytes file before⟩
  | evaluating given failed =>
    exact ⟨_, _, evaluate_of_failed given failed, reliable.gives given⟩
  | writing given drafted asked unwritten =>
    rw [evaluate_of_drafted given drafted, asked, deliver_run, unwritten]
    exact ⟨_, _, rfl, (reliable.gives given).trans (reliable.unwritten unwritten)⟩

/-- What does not fail has a text and a design, and can write it where it is asked to. -/
theorem not_fails_iff : ¬Fails host options file before ↔
    ∃ text between d, host.Gives file before text between ∧
      designOfText options.limits text = .ok d ∧
      ∀ path, options.output = some path →
        ∃ after, (host.writeFile path (d.render options.style)).run between = (.ok (), after) := by
  constructor
  · intro succeeds
    by_cases unread : ∀ text after, ¬host.Gives file before text after
    · exact absurd (.reading unread) succeeds
    · simp only [not_forall, not_not] at unread
      obtain ⟨text, between, given⟩ := unread
      cases drafted : designOfText (K := Float) options.limits text with
      | error failure => exact absurd (.evaluating given drafted) succeeds
      | ok d =>
        refine ⟨text, between, d, given, drafted, fun path asked => ?_⟩
        cases written : (host.writeFile path (d.render options.style)).run between with
        | mk sent after =>
          cases sent with
          | error trouble => exact absurd (.writing given drafted asked written) succeeds
          | ok => exact ⟨after, rfl⟩
  · rintro ⟨text, between, d, given, drafted, writes⟩ fails
    cases fails with
    | reading unread => exact unread text between given
    | evaluating given' failed =>
      obtain ⟨rfl, rfl⟩ := given.unique given'
      cases drafted.symm.trans failed
    | writing given' drafted' asked unwritten =>
      obtain ⟨rfl, rfl⟩ := given.unique given'
      cases drafted.symm.trans drafted'
      obtain ⟨after, written⟩ := writes _ asked
      cases written.symm.trans unwritten

/-- A command that fails says so by its code, prints nothing and leaves all files as they were. Any
other writes the design to the one file it is asked to, or else prints it in full and ends it in one
line break. -/
theorem fails_or_delivers (reliable : host.Reliable view) (given : options.file = some file)
    {outcome : Outcome} (ran : (host.perform (.ok options)).run before = (outcome, after)) :
    (Fails host options file before →
      outcome.code = 1 ∧ outcome.output = "" ∧ view.Unchanged before after) ∧
    (¬Fails host options file before → outcome.code = 0 ∧
      ∃ text between d, host.Gives file before text between ∧
        designOfText options.limits text = .ok d ∧
        (options.output = none → view.Unchanged before after ∧ ∃ body, EndsSolid body ∧
          d.render options.style = body ++ options.style.format.closing ∧
          outcome.output = body ++ "\n") ∧
        ∀ path, options.output = some path → outcome.output = "" ∧
          view.Written before path (d.render options.style) after) := by
  have whole : host.perform (.ok options) = host.evaluate options file := by
    obtain ⟨_, output, style, limits⟩ := options
    cases given
    rfl
  rw [whole] at ran
  constructor
  · intro fails
    obtain ⟨message, reached, failed, same⟩ := fails.run reliable
    cases ran.symm.trans failed
    exact ⟨rfl, rfl, same⟩
  · intro succeeds
    obtain ⟨text, between, d, found, drafted, writes⟩ := not_fails_iff.1 succeeds
    rw [evaluate_of_drafted found drafted] at ran
    cases output : options.output with
    | none =>
      rw [output] at ran
      cases ran
      obtain ⟨solid, whole⟩ := d.trimmedEnd_render options.style
      exact ⟨rfl, text, _, d, found, drafted,
        fun _ => ⟨reliable.gives found, _, solid, whole, rfl⟩, nofun⟩
    | some path =>
      obtain ⟨written, sent⟩ := writes path output
      rw [output, deliver_run, sent] at ran
      cases ran
      refine ⟨rfl, text, between, d, found, drafted, nofun, ?_⟩
      rintro _ ⟨⟩
      exact ⟨rfl, (reliable.gives found).written (reliable.written sent)⟩

end Hosts

namespace Folder

def view : View Folder Place :=
  ⟨find?, fun folder path place => folder.walk path (Path.names path) = .ok place⟩

section Writes

variable {folder : Folder} {path : String}

theorem writeFile_of_target {place : Place} (leads : folder.target path = .ok place)
    (text : String) :
    (host.writeFile path text).run folder = (.ok (), folder.put place text.toUTF8) := by
  have written : folder.write path text.toUTF8 = .ok (folder.put place text.toUTF8) :=
    bind_eq_ok.2 ⟨place, leads, rfl⟩
  simp only [host, StateT.run_bind, StateT.run_get, pure_bind, written]
  rfl

theorem writeFile_of_trouble {trouble : Trouble} (refused : folder.target path = .error trouble)
    (text : String) : (host.writeFile path text).run folder = (.error trouble, folder) := by
  have unwritten : folder.write path text.toUTF8 = .error trouble :=
    bind_eq_error.2 (.inl refused)
  simp only [host, StateT.run_bind, StateT.run_get, pure_bind, unwritten]
  rfl

theorem written_put {place : Place} (leads : folder.target path = .ok place) (text : String) :
    view.Written folder path text (folder.put place text.toUTF8) := by
  obtain ⟨-, walked, free, -⟩ := target_eq_ok.1 leads
  exact ⟨place, walk_put free walked _, folder.find?_put_self place _,
    fun other apart => folder.find?_put_of_ne _ apart⟩

end Writes

theorem reliable : host.Reliable view where
  input := fun _ _ => rfl
  readFile := fun _ _ _ => rfl
  written := by
    intro path text before after ran
    cases leads : before.target path with
    | ok place =>
      cases (writeFile_of_target leads text).symm.trans ran
      exact written_put leads text
    | error trouble => cases (writeFile_of_trouble leads text).symm.trans ran
  unwritten := by
    intro path text before after trouble ran
    cases leads : before.target path with
    | ok place => cases (writeFile_of_target leads text).symm.trans ran
    | error refusal =>
      cases (writeFile_of_trouble leads text).symm.trans ran
      exact fun _ => rfl

end Folder

/-- A folder with one file in it, the text of one tile. -/
def drawer : Folder :=
  ⟨.empty, [(⟨.here, ["in"]⟩, "rect(2, 1, red)".toUTF8)], Folder.systemRefusal⟩

def tileTokens : List Token :=
  [⟨.rect, "rect", ⟨1, 1⟩⟩, ⟨.leftParen, "(", ⟨1, 5⟩⟩, ⟨.integer, "2", ⟨1, 6⟩⟩,
    ⟨.comma, ",", ⟨1, 7⟩⟩, ⟨.integer, "1", ⟨1, 9⟩⟩, ⟨.comma, ",", ⟨1, 10⟩⟩,
    ⟨.identifier, "red", ⟨1, 12⟩⟩, ⟨.rightParen, ")", ⟨1, 15⟩⟩]

def tile : Design Float :=
  ⟨2, 1, [⟨0, 0, 2, 1, .dyed .red⟩]⟩

/-- The options to draw the file in the drawer into another. -/
def traced (path : String) : Options :=
  ⟨some "in", some path, ⟨.svg, Scalar.ofInt 50⟩, Limits.standard⟩

theorem read_traced {path : String} (words : readWords ["in", "-o", path, "-f", "svg"] =
    .ok ⟨some "in", some .svg, none, some path, none, none, false⟩) :
    Options.read (fun _ => none) ["in", "-o", path, "-f", "svg"] = .ok (traced path) :=
  bind_eq_ok.2 ⟨_, words, rfl⟩

theorem tile_drafted : designOfText Limits.standard "rect(2, 1, red)" = .ok tile := by
  have scanned : scan "rect(2, 1, red)" = .ok tileTokens := by with_unfolding_all rfl
  have read : Program.ofText Limits.standard.maxDepth "rect(2, 1, red)" =
      .ok ⟨[], .rect (.number 2) (.number 1) (.color "red")⟩ := by
    rw [Program.ofText, scanned]
    rfl
  rw [designOfText, read]
  rfl

theorem drawer_gives : Folder.host.Gives "in" drawer "rect(2, 1, red)" drawer := by
  have plain : Path.endsInSlash "in" = false := by with_unfolding_all rfl
  have walked : drawer.walk "in" (Path.names "in") = .ok ⟨.here, ["in"]⟩ := by decide +kernel
  have found : drawer.read "in" = .ok "rect(2, 1, red)".toUTF8 :=
    bind_eq_ok.2 ⟨_, walked, by rw [plain]; rfl⟩
  exact Prod.ext found rfl

theorem drawer_target : drawer.target "out" = .ok ⟨.here, ["out"]⟩ := by
  decide +kernel

theorem drawer_target_full :
    drawer.target "/dev/full" = .error (.other "No space left on device (os error 28)") := by
  decide +kernel

/-- One tile is drawn into a file where there is space for it. Where there is none, nothing is. -/
theorem tile_delivered :
    Folder.host.Reliable Folder.view ∧
    (∃ outcome after,
      (run Folder.host (fun _ => none) ["in", "-o", "out", "-f", "svg"]).run drawer =
        (outcome, after) ∧ outcome.code = 0 ∧ outcome.output = "" ∧
      Folder.view.Written drawer "out" (tile.render (traced "out").style) after) ∧
    ∃ outcome after,
      (run Folder.host (fun _ => none) ["in", "-o", "/dev/full", "-f", "svg"]).run drawer =
        (outcome, after) ∧ outcome.code = 1 ∧ outcome.output = "" ∧
      Folder.view.Unchanged drawer after := by
  have read : Options.read (fun _ => none) ["in", "-o", "out", "-f", "svg"] =
      .ok (traced "out") := read_traced (by with_unfolding_all rfl)
  have readFull : Options.read (fun _ => none) ["in", "-o", "/dev/full", "-f", "svg"] =
      .ok (traced "/dev/full") := read_traced (by with_unfolding_all rfl)
  have succeeds : ¬Fails Folder.host (traced "out") "in" drawer :=
    not_fails_iff.2 ⟨_, _, tile, drawer_gives, tile_drafted, fun _ asked => by
      cases asked
      exact ⟨_, Folder.writeFile_of_target drawer_target _⟩⟩
  have fails : Fails Folder.host (traced "/dev/full") "in" drawer :=
    .writing drawer_gives tile_drafted rfl (Folder.writeFile_of_trouble drawer_target_full _)
  refine ⟨Folder.reliable, ?_, ?_⟩
  · rw [run, read]
    obtain ⟨code, text, between, d, given, drafted, -, written⟩ :=
      (fails_or_delivers Folder.reliable rfl rfl).2 succeeds
    obtain ⟨rfl, rfl⟩ := drawer_gives.unique given
    cases tile_drafted.symm.trans drafted
    obtain ⟨output, only⟩ := written "out" rfl
    exact ⟨_, _, rfl, code, output, only⟩
  · rw [run, readFull]
    obtain ⟨code, output, same⟩ := (fails_or_delivers Folder.reliable rfl rfl).1 fails
    exact ⟨_, _, rfl, code, output, same⟩

end Command

end Patchwork
