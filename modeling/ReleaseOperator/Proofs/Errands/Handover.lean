import ReleaseOperator.Proofs.Errands.Deeds

/-!
# What Helm is handed

To install or upgrade a release, the client registers the repository where it has to, makes a file
of each document, and runs one command that names the files in the order of the documents. If any of
this fails, what comes after it is left out. So Helm is asked to upgrade by one command at most, and
when it is, every file that the command names holds the document in its place.
-/

namespace ReleaseOperator.Helm

open Program

variable {client : Client} {request : ReleaseRequest} {ds : List Deed}
  {result : Except HelmError ReleaseInfo}

/-! ### The contents of files -/

/-- What a file holds after one more deed. -/
def Deed.contentAt (path : String) (held : Option String) : Deed → Option String
  | ⟨.makeFile content, .ok p⟩ => if p = path then some content else held
  | ⟨.discard p, _⟩ => if p = path then none else held
  | _ => held

/-- What a file holds after some deeds, when it is there. -/
def contentAt (path : String) (ds : List Deed) : Option String :=
  ds.foldl (Deed.contentAt path) none

theorem contentAt_concat (path : String) (ds : List Deed) (d : Deed) :
    contentAt path (ds ++ [d]) = Deed.contentAt path (contentAt path ds) d := by
  rw [contentAt, List.foldl_append]
  rfl

/-- Files made of some contents, one after the other. -/
def making (contents paths : List String) : List Deed :=
  List.zipWith (fun content path => ⟨.makeFile content, .ok path⟩) contents paths

/-- Files that are made are as many as their contents, and each is made with the content in its
place. -/
theorem Filing.made_eq {contents paths : List String} {opening closing : List Deed}
    (h : Filing contents opening (.ok paths) closing) :
    paths.length = contents.length ∧ opening = making contents paths := by
  generalize hout : Except.ok paths = out at h
  induction h generalizing paths with
  | none =>
      obtain rfl := Except.ok.inj hout
      exact ⟨rfl, rfl⟩
  | refused => exact absurd hout (by simp)
  | @made content path rest opening closing out h ih =>
      cases out with
      | error e => exact absurd hout (by simp [Except.map])
      | ok tail =>
          obtain rfl := Except.ok.inj hout
          obtain ⟨hlength, rfl⟩ := ih rfl
          exact ⟨congrArg (· + 1) hlength, rfl⟩

/-- A file is not touched where others are made. -/
theorem contentAt_append_made {path : String} {contents paths : List String}
    (h : path ∉ paths) (ds : List Deed) :
    contentAt path (ds ++ making contents paths) = contentAt path ds := by
  induction contents generalizing paths ds with
  | nil => rw [making, List.zipWith_nil_left, List.append_nil]
  | cons content contents ih =>
      cases paths with
      | nil => rw [making, List.zipWith_nil_right, List.append_nil]
      | cons p paths =>
          rw [List.mem_cons, not_or] at h
          rw [making, List.zipWith_cons_cons, List.append_cons]
          refine (ih h.2 _).trans ?_
          rw [contentAt_concat]
          exact if_neg fun heq => h.1 heq.symm

/-- Files with paths of their own hold what they were made with, in order. -/
theorem map_contentAt_made {contents paths : List String} (hlength : paths.length = contents.length)
    (hown : paths.Nodup) (ds : List Deed) :
    paths.map (fun path => contentAt path (ds ++ making contents paths)) =
      contents.map some := by
  induction contents generalizing paths ds with
  | nil =>
      obtain rfl := List.length_eq_zero_iff.1 hlength
      rfl
  | cons content contents ih =>
      cases paths with
      | nil => exact absurd hlength (by simp)
      | cons p paths =>
          rw [List.nodup_cons] at hown
          have hmaking : ds ++ making (content :: contents) (p :: paths) =
              ds ++ [⟨.makeFile content, .ok p⟩] ++ making contents paths :=
            List.append_cons _ _ _
          rw [hmaking, List.map_cons, List.map_cons, ih (Nat.succ.inj hlength) hown.2,
            contentAt_append_made hown.1, contentAt_concat]
          exact congrArg (· :: _) (if_pos rfl)

/-! ### Attempts -/

/-- The command that installs or upgrades a release, with files of values. -/
def Client.upgrading (client : Client) (request : ReleaseRequest)
    (registered : Option PrivateRepository) (files : List String) : Invocation :=
  client.command (Arguments.upgrade request registered files) none

/-- What the client does to install or upgrade a release, and what comes of it: it comes as far as
the first thing that fails. -/
inductive Client.Attempt (client : Client) (request : ReleaseRequest) :
    List Deed → Except HelmError ReleaseInfo → Prop
  | unregistered {opening closing : List Deed} {e : HelmError}
      (hregistered : client.Registration request.release request.credentials opening (.error e)
        closing) :
      Attempt client request (opening ++ closing) (.error e)
  | unfiled {opening closing filed discarded : List Deed} {registered : Option PrivateRepository}
      {e : HelmError}
      (hregistered : client.Registration request.release request.credentials opening
        (.ok registered) closing)
      (hfiled : Filing request.documents filed (.error e) discarded) :
      Attempt client request (opening ++ filed ++ discarded ++ closing) (.error e)
  | ran {opening closing filed discarded : List Deed} {registered : Option PrivateRepository}
      {files : List String} (ending : Ending)
      (hregistered : client.Registration request.release request.credentials opening
        (.ok registered) closing)
      (hfiled : Filing request.documents filed (.ok files) discarded) :
      Attempt client request
        (opening ++ filed ++
          client.ran "upgrade" (client.upgrading request registered files) ending ++
          discarded ++ closing)
        ((client.verdict "upgrade" ending).bind (Output.record (Output.applied? request.release)))

/-- Whatever the machine answers, the client makes an attempt. -/
theorem Client.always_attempt (client : Client) (request : ReleaseRequest) (ds : List Deed) :
    Always Deed.recording (client.upgradeOrInstall request).run ds fun result ds' =>
      ∃ own, ds' = ds ++ own ∧ client.Attempt request own result := by
  refine always_reading.2 ?_
  refine client.frames_withRepository _ _ _ _ _ (fun opening e closing hregistered => ?_)
    fun opening registered closing hregistered => ?_
  · exact ⟨_, List.append_assoc _ _ _, .unregistered hregistered⟩
  · refine frames_withFiles _ _ _ _ (fun filed e discarded hfiled => ?_)
      fun filed files discarded hfiled => ?_
    · refine ⟨_, ?_, .unfiled hregistered hfiled⟩
      simp only [List.append_assoc]
    · refine always_run.2 fun ending => ⟨_, ?_, .ran ending hregistered hfiled⟩
      simp only [List.append_assoc]
      rfl

/-- What Helm is handed by a command among some deeds: the release, and files of values in the order
of the documents, each made with one of them and, as files have paths of their own, still holding it.
Everything before it went well. -/
def Client.Handed (client : Client) (request : ReleaseRequest) (ds : List Deed) (i : Invocation) :
    Prop :=
  ∃ registered files opening ending closing,
    ds = opening ++ making request.documents files ++ client.ran "upgrade" i ending ++ closing ∧
      commands ds = commands opening ++ [i] ∧
      (∃ freed, client.Registration request.release request.credentials opening (.ok registered)
        freed) ∧
      i.args = Arguments.inContext client.context
        (["upgrade", "--install", request.release.name] ++
          Arguments.chart request.release registered ++
          ["--namespace", request.release.namespaceName, "--create-namespace", "--output", "json"] ++
          files.flatMap (fun path => ["-f", path]) ++ Arguments.switch "--wait" request.wait ++
          Arguments.switch "--dry-run" request.dryRun) ∧
      files.length = request.documents.length ∧
      (files.Nodup →
        files.map (fun path => contentAt path (opening ++ making request.documents files)) =
          request.documents.map some)

/-- The commands that register a repository are no upgrades. -/
theorem Client.Registration.not_upgrade {release : Release} {credentials : Option Credentials}
    {opening closing : List Deed} {out : Except HelmError (Option PrivateRepository)}
    (h : client.Registration release credentials opening out closing) :
    (∀ i ∈ commands opening, i.args.head? ≠ some "upgrade") ∧ commands closing = [] := by
  cases h with
  | tried c hfetched config cache ending =>
      refine ⟨fun i hi => ?_, rfl⟩
      obtain rfl := List.mem_singleton.1 hi
      obtain ⟨rest, hargs⟩ := client.args_command (Arguments.repoAdd
        (registrationOf release config cache) release.repository.uri c.username) (some c.password)
      rw [login, ← hargs]
      exact fun heq => absurd (Option.some.inj heq) (by decide)
  | _ => exact ⟨fun i hi => absurd hi List.not_mem_nil, rfl⟩

/-- An attempt that upgrades hands over all documents, and Helm is asked to once. -/
theorem Client.Attempt.handed {i : Invocation} (h : client.Attempt request ds result)
    (hi : i ∈ commands ds) (hupgrade : i.args.head? = some "upgrade") :
    client.Handed request ds i := by
  cases h with
  | unregistered hregistered =>
      obtain ⟨hopening, hclosing⟩ := hregistered.not_upgrade
      rw [commands_append, hclosing, List.append_nil] at hi
      exact absurd hupgrade (hopening i hi)
  | unfiled hregistered hfiled =>
      obtain ⟨hopening, hclosing⟩ := hregistered.not_upgrade
      obtain ⟨hfiled, hdiscarded⟩ := hfiled.commands_eq_nil
      simp only [commands_append, hclosing, hfiled, hdiscarded, List.append_nil] at hi
      exact absurd hupgrade (hopening i hi)
  | ran ending hregistered hfiled =>
      obtain ⟨hopening, hclosing⟩ := hregistered.not_upgrade
      obtain ⟨hfiled', hdiscarded⟩ := hfiled.commands_eq_nil
      obtain ⟨hlength, rfl⟩ := hfiled.made_eq
      simp only [commands_append, hclosing, hfiled', hdiscarded, List.append_nil,
        commands_ran, List.mem_append, List.mem_singleton] at hi
      obtain hi | rfl := hi
      · exact absurd hupgrade (hopening i hi)
      · refine ⟨_, _, _, ending, _, List.append_assoc _ _ _, ?_, ⟨_, hregistered⟩, rfl, hlength,
          fun hown => map_contentAt_made hlength hown _⟩
        simp only [commands_append, hclosing, hfiled', hdiscarded, List.append_nil, commands_ran]

/-- An attempt that went well did upgrade. -/
theorem Client.Attempt.exists_upgrade {info : ReleaseInfo}
    (h : client.Attempt request ds (.ok info)) :
    ∃ i ∈ commands ds, i.args.head? = some "upgrade" := by
  generalize hok : Except.ok info = result at h
  cases h with
  | unregistered => exact absurd hok (by simp)
  | unfiled => exact absurd hok (by simp)
  | @ran opening _ filed _ registered files ending =>
      refine ⟨client.upgrading request registered files, ?_, ?_⟩
      · simp only [commands_append, commands_ran, List.mem_append, List.mem_singleton, true_or,
          or_true]
      · obtain ⟨rest, hargs⟩ := client.args_command
          (Arguments.upgrade request registered files) none
        rw [upgrading, ← hargs]
        rfl

end ReleaseOperator.Helm
