import C2Engine.Machine.Files
import C2Engine.Machine.Trace
import C2Engine.Sensor.LogBus
import C2Engine.Sensor.UrlFetcher
import Mathlib.Data.List.Nodup

/-!
# The downloads of the fetcher

`output/urlfetcher.py`: each URL is fetched on a worker thread of its own, and what came back is
kept under its digest. A worker writes it to `<sha>.tmp`, renames the file and has the reactor log a
line for the session. Nothing keeps two workers with the same bytes apart: the second empties the
file the first is writing, and the first renames the file the second goes on writing to.

The system calls of the workers come in any order, between the entries the plugin is handed, and any
of them may fail. A worker writes as many bytes at a time as the call takes.

## Main definitions

* `Replies`: what comes of the fetch of each URL.
* `Job`, `Stage`, `Job.step`: `_fetch_and_store`, by its system calls.
* `Fetcher`, `Act`, `Fetcher.perform`: the plugin with its workers.
* `Fetcher.Inv`: what holds between the calls.
* `Kept`, `Stored`: the file under a digest, and the workers that brought it there.

## Main results

* `Fetcher.Inv.perform`: what a call preserves.
* `kept_after`: in every order of the calls.
-/

namespace C2Engine.Sensor.UrlFetcher

open Python Machine

/-! ### The worker -/

/-- `os.path.join` of a directory and a name. -/
def pathJoin (dir name : PyStr) : PyStr :=
  if name.head? = some (cp '/') then name
  else if dir = [] ∨ dir.getLast? = some (cp '/') then dir ++ name
  else dir ++ cp '/' :: name

/-- The host of a URL, `urlparse(url).hostname or ""`. -/
def hostOf (rt : Runtime) (url : PyStr) : PyStr :=
  match urlsplit rt.unicode url with
  | .ok parsed => parsed.hostname rt.unicode
  | .error _ => []

/-- What comes of the fetch of each URL: the network, and what `_do_get` returns, if anything. -/
structure Replies where
  net : PyStr → Net
  body : PyStr → Option Bytes

/-- A call of `_fetch_and_store`. -/
structure Job where
  url : PyStr
  session : PyStr
  deriving DecidableEq

/-- Where a worker stands: at the fetch, at `os.path.exists`, at `open`, in a `write` to a file with
some of the bytes written, at `os.rename`, at the line, behind it or at an early return, or behind
an `OSError` of the `write`. -/
inductive Stage where
  | fetching
  | looking
  | opening
  | writing (file written : ℕ)
  | moving
  | announcing
  | done (stored : Bool)
  | gaveUp
  deriving DecidableEq

section Worker

variable (rt : Runtime) (path : PyStr) (replies : Replies)

/-- The bytes a URL is fetched to, with none if there is nothing to store. -/
def Replies.content (url : PyStr) : Bytes :=
  if passesLookup rt (replies.net url) url then (replies.body url).getD [] else []

/-- The digest a download is kept under. -/
def Replies.digest (url : PyStr) : PyStr := rt.hashlib.sha256 (replies.content rt url)

/-- The name it is written under. -/
def Replies.tmp (url : PyStr) : PyStr := replies.digest rt url ++ str ".tmp"

/-- `resolved_ip or ""`. -/
def Replies.resolvedIp (url : PyStr) : PyStr :=
  (((replies.net url).resolve (hostOf rt url)).toOption.join).getD []

/-- The line `_emit_file_download` logs. -/
def Job.line (job : Job) : LogEvent where
  session := some job.session
  system := some (str "-")
  fields := [(key "eventid", .str (str "cowrie.session.file_download")),
    (key "format", .str (str "downloaded %(url)s -> %(outfile)s (sha=%(shasum)s)")),
    (key "url", .str job.url),
    (key "outfile", .str (pathJoin path (replies.digest rt job.url))),
    (key "shasum", .str (replies.digest rt job.url)),
    (key "size", .int (replies.content rt job.url).length),
    (key "resolved_ip", .str (replies.resolvedIp rt job.url))]

/-- The next call of `_fetch_and_store`. It fails, or it returns; a write takes one byte more than
the number that is told. -/
def Job.step (outcome : Option ℕ) (job : Job) (stage : Stage) (d : Directory PyStr) :
    Stage × Directory PyStr × List LogEvent :=
  let content := replies.content rt job.url
  let sha := replies.digest rt job.url
  match stage, outcome with
  | .fetching, _ => (if content = [] then .done false else .looking, d, [])
  | .looking, _ => (if (d.entry sha).isSome then .announcing else .opening, d, [])
  | .opening, none => (.done false, d, [])
  | .opening, some _ =>
    let (d', x) := d.openWrite (replies.tmp rt job.url)
    (.writing x 0, d', [])
  | .writing _ _, none => (.gaveUp, d, [])
  | .writing x k, some n =>
    let data := chunk content k (n + 1)
    (if k + data.length < content.length then .writing x (k + data.length) else .moving,
      d.write x k data, [])
  | .moving, none => (.done false, d, [])
  | .moving, some _ =>
    match d.entry (replies.tmp rt job.url) with
    | none => (.done false, d, [])
    | some x => (.announcing, d.rename (replies.tmp rt job.url) sha x, [])
  | .announcing, _ =>
    (.done true, d, if job.session = [] then [] else [job.line rt path replies])
  | .done stored, _ => (.done stored, d, [])
  | .gaveUp, _ => (.gaveUp, d, [])

end Worker

/-! ### The plugin with its workers -/

/-- The plugin: the URLs that are never fetched again, the workers, the downloads directory and the
lines that were logged. -/
structure Fetcher where
  fetched : List PyStr := []
  jobs : List (Job × Stage) := []
  disk : Directory PyStr
  log : List LogEvent := []

/-- What happens next: the plugin is handed an entry, or a worker makes its next call. -/
inductive Act where
  | entry (e : Entry)
  | worker (i : ℕ) (outcome : Option ℕ)

/-- The call of the worker does not fail. -/
def Act.Succeeds : Act → Prop
  | .entry _ => True
  | .worker _ outcome => outcome.isSome

section Run

variable (rt : Runtime) (path : PyStr) (replies : Replies)

/-- The jobs an entry is made into. -/
def jobsOf (e : Entry) (fetched : List PyStr) : List (Job × Stage) :=
  (write rt e fetched).1.map fun url => (⟨url, e.session.getD []⟩, .fetching)

/-- A worker makes its next call. -/
def Fetcher.work (f : Fetcher) (i : ℕ) (outcome : Option ℕ) : Fetcher :=
  match f.jobs[i]? with
  | none => f
  | some (job, stage) =>
    let (stage', disk', lines) := job.step rt path replies outcome stage f.disk
    { f with jobs := f.jobs.set i (job, stage'), disk := disk', log := f.log ++ lines }

/-- What happens next. -/
def Fetcher.perform : Act → Fetcher → Fetcher
  | .entry e, f =>
    { f with
      fetched := (write rt e f.fetched).2
      jobs := f.jobs ++ jobsOf rt e f.fetched }
  | .worker i outcome, f => f.work rt path replies i outcome

/-- The plugin after a run, from what it found in the directory. -/
def afterActs (disk : Directory PyStr) (as : List Act) : Fetcher :=
  after (Fetcher.perform rt path replies) { disk := disk } as

end Run

/-! ### What holds between the calls -/

variable {rt : Runtime} {path : PyStr} {replies : Replies} {f : Fetcher} {d : Directory PyStr}

variable (rt replies) in
/-- The digests tell the downloads apart. -/
def Replies.Distinct : Prop := ∀ url url', replies.digest rt url = replies.digest rt url' →
  replies.content rt url = replies.content rt url'

variable (rt replies) in
/-- A file holds the bytes of a URL, or it is being written by a worker that emptied it, or a worker
with these bytes gave up. -/
def Kept (f : Fetcher) (url : PyStr) (x : ℕ) : Prop :=
  f.disk.file x = replies.content rt url ∨
    (∃ job k, (job, Stage.writing x k) ∈ f.jobs ∧
      replies.content rt job.url = replies.content rt url ∧
      RightUpTo k (replies.content rt url) (f.disk.file x) ∧
      (f.disk.file x).length ≤ (replies.content rt url).length) ∨
    ∃ job, (job, Stage.gaveUp) ∈ f.jobs ∧
      replies.content rt job.url = replies.content rt url

variable (rt replies) in
/-- What holds of the files between two calls. -/
structure Fetcher.Inv (f : Fetcher) : Prop where
  sound : f.disk.Sound
  /-- What is under a digest. -/
  stored : ∀ url x, f.disk.entry (replies.digest rt url) = some x → Kept rt replies f url x
  /-- What a worker has open. -/
  held : ∀ job x k, (job, Stage.writing x k) ∈ f.jobs → x < f.disk.fresh ∧
    k ≤ (replies.content rt job.url).length ∧ Kept rt replies f job.url x
  /-- It is under no other name. -/
  named : ∀ job x k, (job, Stage.writing x k) ∈ f.jobs → ∀ name, f.disk.entry name = some x →
    name = replies.digest rt job.url ∨ name = replies.tmp rt job.url
  /-- It is open for these bytes only. -/
  shared : ∀ job job' x k k', (job, Stage.writing x k) ∈ f.jobs →
    (job', Stage.writing x k') ∈ f.jobs →
      replies.digest rt job.url = replies.digest rt job'.url
  /-- What a worker with these bytes may rename. -/
  begun : ∀ job, ((∃ x k, (job, Stage.writing x k) ∈ f.jobs) ∨ (job, Stage.moving) ∈ f.jobs) →
    ∀ x, f.disk.entry (replies.tmp rt job.url) = some x → Kept rt replies f job.url x

theorem digest_ne_tmp (url url' : PyStr) : replies.digest rt url ≠ replies.tmp rt url' := by
  intro heq
  have hlen := congrArg List.length heq
  rw [Replies.tmp, List.length_append, Replies.digest, Replies.digest, rt.hashlib.length_sha256,
    rt.hashlib.length_sha256] at hlen
  exact absurd hlen (by decide)

theorem tmp_inj {url url' : PyStr} :
    replies.tmp rt url = replies.tmp rt url' ↔ replies.digest rt url = replies.digest rt url' :=
  List.append_left_inj _

/-- A file that is kept for a URL is kept for one with the same bytes. -/
theorem Kept.congr {url url' : PyStr} {x : ℕ} (h : Kept rt replies f url x)
    (heq : replies.content rt url = replies.content rt url') : Kept rt replies f url' x := by
  rwa [Kept, ← heq]

/-- A file is kept where it stays as it is, and with it those who write or gave up. -/
theorem Kept.mono {f' : Fetcher} {url : PyStr} {x : ℕ} (h : Kept rt replies f url x)
    (hfile : f'.disk.file x = f.disk.file x)
    (hwriting : ∀ job k, (job, Stage.writing x k) ∈ f.jobs → (job, Stage.writing x k) ∈ f'.jobs ∨
      (job, Stage.gaveUp) ∈ f'.jobs)
    (hgaveUp : ∀ job, (job, Stage.gaveUp) ∈ f.jobs → (job, Stage.gaveUp) ∈ f'.jobs) :
    Kept rt replies f' url x := by
  rcases h with hwhole | ⟨job, k, hmem, hcontent, hright, hlen⟩ | ⟨job, hmem, hcontent⟩
  · exact .inl (hfile.trans hwhole)
  · rcases hwriting job k hmem with hmem | hmem
    · exact .inr (.inl ⟨job, k, hmem, hcontent, hfile ▸ hright, hfile ▸ hlen⟩)
    · exact .inr (.inr ⟨job, hmem, hcontent⟩)
  · exact .inr (.inr ⟨job, hgaveUp job hmem, hcontent⟩)

/-- Between its `open` and the end of its `os.rename`. -/
def Stage.atWork : Stage → Bool
  | .writing _ _ | .moving => true
  | _ => false

/-- Where the files stay as they are, and no worker takes up its work: one that gives up goes on
being known. -/
theorem Fetcher.Inv.of_disk {f' : Fetcher} (h : f.Inv rt replies) (hdisk : f'.disk = f.disk)
    (hold : ∀ p ∈ f'.jobs, p.2.atWork → p ∈ f.jobs)
    (hwriting : ∀ job x k, (job, Stage.writing x k) ∈ f.jobs →
      (job, Stage.writing x k) ∈ f'.jobs ∨ (job, Stage.gaveUp) ∈ f'.jobs)
    (hgaveUp : ∀ job, (job, Stage.gaveUp) ∈ f.jobs → (job, Stage.gaveUp) ∈ f'.jobs) :
    f'.Inv rt replies := by
  have hmono : ∀ {url x}, Kept rt replies f url x → Kept rt replies f' url x := fun hkept =>
    hkept.mono (by rw [hdisk]) (fun job k => hwriting job _ k) hgaveUp
  have hold' : ∀ {job x k}, (job, Stage.writing x k) ∈ f'.jobs →
      (job, Stage.writing x k) ∈ f.jobs := fun hmem => hold _ hmem rfl
  constructor
  · rw [hdisk]
    exact h.sound
  · intro url x hx
    rw [hdisk] at hx
    exact hmono (h.stored url x hx)
  · intro job x k hmem
    obtain ⟨hx, hk, hkept⟩ := h.held job x k (hold' hmem)
    exact ⟨hdisk ▸ hx, hk, hmono hkept⟩
  · intro job x k hmem name hname
    rw [hdisk] at hname
    exact h.named job x k (hold' hmem) name hname
  · exact fun job job' x k k' hmem hmem' => h.shared job job' x k k' (hold' hmem) (hold' hmem')
  · intro job hbegun x hx
    rw [hdisk] at hx
    refine hmono (h.begun job ?_ x hx)
    rcases hbegun with ⟨y, k, hmem⟩ | hmem
    · exact .inl ⟨y, k, hold' hmem⟩
    · exact .inr (hold _ hmem rfl)

theorem mem_set_or_eq {α : Type} {l : List α} {i : ℕ} {a b c : α} (hi : l[i]? = some a)
    (hc : c ∈ l) : c ∈ l.set i b ∨ c = a := by
  obtain ⟨j, hj⟩ := List.mem_iff_getElem?.mp hc
  by_cases hij : i = j
  · subst hij
    exact .inr (Option.some.inj (hj.symm.trans hi))
  · exact .inl (List.mem_iff_getElem?.mpr ⟨j, by rw [List.getElem?_set_ne hij, hj]⟩)

section Moves

variable {i : ℕ} {job : Job} {stage stage' : Stage} {log : List LogEvent}

/-- A worker goes on without touching the files: it does not open, and does not leave off but by
giving up. -/
theorem Fetcher.Inv.move (h : f.Inv rt replies) (hi : f.jobs[i]? = some (job, stage))
    (hwork : stage'.atWork = false) (hgaveUp : stage = .gaveUp → stage' = .gaveUp)
    (hwriting : ∀ x k, stage = .writing x k → stage' = .gaveUp) :
    Fetcher.Inv rt replies { f with jobs := f.jobs.set i (job, stage'), log := log } := by
  have hnew : (job, stage') ∈ f.jobs.set i (job, stage') :=
    List.mem_set (List.getElem?_eq_some_iff.mp hi).1 _
  refine h.of_disk rfl (fun p hp hatWork => ?_) (fun job' x k hmem => ?_) fun job' hmem => ?_
  · rcases List.mem_or_eq_of_mem_set hp with hp | rfl
    · exact hp
    · rw [hwork] at hatWork
      exact absurd hatWork Bool.false_ne_true
  · rcases mem_set_or_eq (b := (job, stage')) hi hmem with hmem | heq
    · exact .inl hmem
    · obtain ⟨rfl, hstage⟩ := Prod.mk.inj heq
      exact .inr (hwriting x k hstage.symm ▸ hnew)
  · rcases mem_set_or_eq (b := (job, stage')) hi hmem with hmem | heq
    · exact hmem
    · obtain ⟨rfl, hstage⟩ := Prod.mk.inj heq
      exact hgaveUp hstage.symm ▸ hnew

/-- A worker opens the file it writes to. -/
theorem Fetcher.Inv.openWrite (hdistinct : replies.Distinct rt) (h : f.Inv rt replies)
    (hi : f.jobs[i]? = some (job, .opening)) :
    Fetcher.Inv rt replies { f with
      jobs := f.jobs.set i (job, .writing (f.disk.openWrite (replies.tmp rt job.url)).2 0)
      disk := (f.disk.openWrite (replies.tmp rt job.url)).1
      log := log } := by
  set x := (f.disk.openWrite (replies.tmp rt job.url)).2 with hx
  have hnew : (job, Stage.writing x 0) ∈ f.jobs.set i (job, .writing x 0) :=
    List.mem_set (List.getElem?_eq_some_iff.mp hi).1 _
  have hstay : ∀ {job' stage}, (job', stage) ∈ f.jobs → stage ≠ .opening →
      (job', stage) ∈ f.jobs.set i (job, .writing x 0) := by
    intro job' stage hmem hne
    rcases mem_set_or_eq (b := (job, Stage.writing x 0)) hi hmem with hmem | heq
    · exact hmem
    · exact absurd (Prod.mk.inj heq).2 hne
  -- the file has no other name
  have hname : ∀ {name}, f.disk.entry name = some x → name = replies.tmp rt job.url := by
    intro name hentry
    rcases f.disk.openWrite_snd (replies.tmp rt job.url) with htmp | ⟨-, hfresh⟩
    · exact h.sound.injective hentry htmp
    · rw [hx, hfresh] at hentry
      exact absurd (h.sound.used hentry) (lt_irrefl _)
  -- who has it open writes the same bytes
  have hsame : ∀ {job' k}, (job', Stage.writing x k) ∈ f.jobs →
      replies.digest rt job'.url = replies.digest rt job.url := by
    intro job' k hmem
    rcases f.disk.openWrite_snd (replies.tmp rt job.url) with htmp | ⟨-, hfresh⟩
    · rcases h.named job' x k hmem _ htmp with heq | heq
      · exact absurd heq.symm (digest_ne_tmp _ _)
      · exact (tmp_inj.mp heq).symm
    · have hlt := (h.held job' x k hmem).1
      rw [hx, hfresh] at hlt
      exact absurd hlt (lt_irrefl _)
  have hempty : ∀ {url}, replies.digest rt job.url = replies.digest rt url →
      Kept rt replies { f with
        jobs := f.jobs.set i (job, .writing x 0)
        disk := (f.disk.openWrite (replies.tmp rt job.url)).1
        log := log } url x := by
    intro url heq
    refine .inr (.inl ⟨job, 0, hnew, hdistinct _ _ heq,
      fun j hj => absurd hj (Nat.not_lt_zero j), ?_⟩)
    dsimp only
    rw [Directory.file_openWrite, if_pos rfl]
    exact Nat.zero_le _
  have hmono : ∀ {url y}, Kept rt replies f url y → y ≠ x → Kept rt replies { f with
      jobs := f.jobs.set i (job, .writing x 0)
      disk := (f.disk.openWrite (replies.tmp rt job.url)).1
      log := log } url y := by
    intro url y hkept hne
    refine hkept.mono ?_ (fun job' k hmem => .inl (hstay hmem nofun))
      fun job' hmem => hstay hmem nofun
    dsimp only
    rw [Directory.file_openWrite, if_neg hne]
  constructor
  · exact h.sound.openWrite
  · intro url y hentry
    dsimp only at hentry
    rw [Directory.entry_openWrite, if_neg (digest_ne_tmp _ _)] at hentry
    refine hmono (h.stored url y hentry) fun heq => ?_
    exact digest_ne_tmp _ _ (hname (heq ▸ hentry))
  · intro job' y k hmem
    rcases List.mem_or_eq_of_mem_set hmem with hmem | heq
    · obtain ⟨hlt, hk, hkept⟩ := h.held job' y k hmem
      refine ⟨hlt.trans_le Directory.fresh_le_openWrite, hk, ?_⟩
      by_cases hy : y = x
      · subst hy
        exact hempty (hsame hmem).symm
      · exact hmono hkept hy
    · obtain ⟨rfl, hstage⟩ := Prod.mk.inj heq
      obtain ⟨rfl, rfl⟩ := Stage.writing.inj hstage
      exact ⟨h.sound.openWrite_lt, Nat.zero_le _, hempty rfl⟩
  · intro job' y k hmem name hentry
    dsimp only at hentry
    rw [Directory.entry_openWrite] at hentry
    rcases List.mem_or_eq_of_mem_set hmem with hmem | heq
    · split_ifs at hentry with htmp
      · obtain rfl := Option.some.inj hentry
        exact .inr (htmp.trans (tmp_inj.mpr (hsame hmem).symm))
      · exact h.named job' y k hmem name hentry
    · obtain ⟨rfl, hstage⟩ := Prod.mk.inj heq
      obtain ⟨rfl, rfl⟩ := Stage.writing.inj hstage
      split_ifs at hentry with htmp
      · exact .inr htmp
      · exact .inr (hname hentry)
  · intro job₁ job₂ y k k' hmem hmem'
    rcases List.mem_or_eq_of_mem_set hmem with hold | heq <;>
      rcases List.mem_or_eq_of_mem_set hmem' with hold' | heq'
    · exact h.shared job₁ job₂ y k k' hold hold'
    · obtain ⟨rfl, hstage⟩ := Prod.mk.inj heq'
      obtain ⟨rfl, rfl⟩ := Stage.writing.inj hstage
      exact hsame hold
    · obtain ⟨rfl, hstage⟩ := Prod.mk.inj heq
      obtain ⟨rfl, rfl⟩ := Stage.writing.inj hstage
      exact (hsame hold').symm
    · rw [(Prod.mk.inj heq).1, (Prod.mk.inj heq').1]
  · intro job' hbegun y hentry
    dsimp only at hentry
    rw [Directory.entry_openWrite] at hentry
    split_ifs at hentry with htmp
    · obtain rfl := Option.some.inj hentry
      exact hempty (tmp_inj.mp htmp).symm
    · have hy : y ≠ x := fun heq => htmp (hname (heq ▸ hentry))
      have hjob : job' ≠ job := fun heq => htmp (heq ▸ rfl)
      refine hmono (h.begun job' ?_ y hentry) hy
      rcases hbegun with ⟨z, k, hmem⟩ | hmem
      · rcases List.mem_or_eq_of_mem_set hmem with hmem | heq
        · exact .inl ⟨z, k, hmem⟩
        · exact absurd (Prod.mk.inj heq).1 hjob
      · rcases List.mem_or_eq_of_mem_set hmem with hmem | heq
        · exact .inr hmem
        · exact absurd (Prod.mk.inj heq).1 hjob

/-- A worker writes some bytes. -/
theorem Fetcher.Inv.write (hdistinct : replies.Distinct rt) (h : f.Inv rt replies) {x k n : ℕ}
    (hi : f.jobs[i]? = some (job, .writing x k))
    (hstage' : stage' = if k + (chunk (replies.content rt job.url) k n).length <
        (replies.content rt job.url).length
      then .writing x (k + (chunk (replies.content rt job.url) k n).length) else .moving) :
    Fetcher.Inv rt replies { f with
      jobs := f.jobs.set i (job, stage')
      disk := f.disk.write x k (chunk (replies.content rt job.url) k n)
      log := log } := by
  set content := replies.content rt job.url with hcontent
  set f' : Fetcher := { f with
    jobs := f.jobs.set i (job, stage')
    disk := f.disk.write x k (chunk content k n)
    log := log } with hf'
  have hmem : (job, Stage.writing x k) ∈ f.jobs := List.mem_of_getElem? hi
  have hnew : (job, stage') ∈ f'.jobs := List.mem_set (List.getElem?_eq_some_iff.mp hi).1 _
  have hk : k ≤ content.length := (h.held job x k hmem).2.1
  have hstay : ∀ {p}, p ∈ f.jobs → p ∈ f'.jobs ∨ p = (job, .writing x k) :=
    mem_set_or_eq (b := (job, stage')) hi
  -- a file of other bytes, or none that is open, stays as it is
  have hmono : ∀ {url y}, Kept rt replies f url y →
      (y = x → replies.content rt url = content) → Kept rt replies f' url y := by
    intro url y hkept hsame
    by_cases hy : y = x
    · subst hy
      have hfile : f'.disk.file y = writeAt (f.disk.file y) k (chunk content k n) := by
        rw [hf']
        dsimp only
        rw [Directory.file_write, if_pos rfl]
      rcases hkept with hwhole | ⟨job', k', hmem', hcontent', hright, hlen⟩ | ⟨job', hmem', hgaveUp⟩
      · refine .inl ?_
        rw [hfile, hwhole, hsame rfl, writeAt_self hk]
      · have hk' := (h.held job' y k' hmem').2.1
        rw [hcontent', hsame rfl] at hk'
        rw [hsame rfl] at hright hlen hcontent'
        have hlen' := length_writeAt_le (n := n) hk hlen
        rcases hstay hmem' with hmem' | heq
        · refine .inr (.inl ⟨job', k', hmem', hcontent'.trans (hsame rfl).symm, ?_, ?_⟩)
          · rw [hfile, hsame rfl]
            exact rightUpTo_writeAt hk' hright
          · rw [hfile, hsame rfl]
            exact hlen'
        · obtain ⟨rfl, hstage⟩ := Prod.mk.inj heq
          obtain ⟨-, rfl⟩ := Stage.writing.inj hstage
          have hself := rightUpTo_writeAt_self (n := n) hk hright
          split_ifs at hstage' with hmore
          · refine .inr (.inl ⟨job', _, hstage' ▸ hnew, hcontent'.trans (hsame rfl).symm, ?_, ?_⟩)
            · rw [hfile, hsame rfl]
              exact hself
            · rw [hfile, hsame rfl]
              exact hlen'
          · refine .inl ?_
            rw [hfile, hsame rfl]
            exact eq_of_rightUpTo (fun j hj => hself j (by omega)) hlen'
      · refine .inr (.inr ⟨job', ?_, hgaveUp⟩)
        exact (hstay hmem').resolve_right fun heq => nomatch (Prod.mk.inj heq).2
    · refine hkept.mono ?_ (fun job' k' hmem' => .inl ?_) fun job' hmem' => ?_
      · rw [hf']
        dsimp only
        rw [Directory.file_write, if_neg hy]
      · refine (hstay hmem').resolve_right fun heq => ?_
        exact hy (Stage.writing.inj (Prod.mk.inj heq).2).1
      · exact (hstay hmem').resolve_right fun heq => nomatch (Prod.mk.inj heq).2
  have hdigest : ∀ {url}, replies.digest rt url = replies.digest rt job.url →
      replies.content rt url = content := fun heq => hdistinct _ _ heq
  -- whoever has a file open had it open before
  have hopen : ∀ {job' y k'}, (job', Stage.writing y k') ∈ f'.jobs →
      (∃ k, (job', Stage.writing y k) ∈ f.jobs) ∧ k' ≤ (replies.content rt job'.url).length := by
    intro job' y k' hmem'
    rcases List.mem_or_eq_of_mem_set hmem' with hold | heq
    · exact ⟨⟨k', hold⟩, (h.held job' y k' hold).2.1⟩
    · obtain ⟨rfl, hstage⟩ := Prod.mk.inj heq
      rw [hstage'] at hstage
      split_ifs at hstage with hmore
      obtain ⟨rfl, rfl⟩ := Stage.writing.inj hstage
      exact ⟨⟨k, hmem⟩, hmore.le⟩
  constructor
  · exact h.sound.write
  · intro url y hentry
    refine hmono (h.stored url y hentry) fun hy => hdigest ?_
    subst hy
    exact (h.named job y k hmem _ hentry).resolve_right (digest_ne_tmp _ _)
  · intro job' y k' hmem'
    obtain ⟨⟨k₀, hold⟩, hk'⟩ := hopen hmem'
    obtain ⟨hlt, -, hkept⟩ := h.held job' y k₀ hold
    refine ⟨hlt, hk', hmono hkept fun hy => hdigest ?_⟩
    subst hy
    exact h.shared job' job y k₀ k hold hmem
  · intro job' y k' hmem' name hentry
    obtain ⟨⟨k₀, hold⟩, -⟩ := hopen hmem'
    exact h.named job' y k₀ hold name hentry
  · intro job₁ job₂ y k₁ k₂ hmem₁ hmem₂
    obtain ⟨⟨k₁, hold₁⟩, -⟩ := hopen hmem₁
    obtain ⟨⟨k₂, hold₂⟩, -⟩ := hopen hmem₂
    exact h.shared job₁ job₂ y k₁ k₂ hold₁ hold₂
  · intro job' hbegun y hentry
    have hold : (∃ x k, (job', Stage.writing x k) ∈ f.jobs) ∨ (job', Stage.moving) ∈ f.jobs := by
      rcases hbegun with ⟨z, k', hmem'⟩ | hmem'
      · obtain ⟨⟨k₀, hold⟩, -⟩ := hopen hmem'
        exact .inl ⟨z, k₀, hold⟩
      · rcases List.mem_or_eq_of_mem_set hmem' with hold | heq
        · exact .inr hold
        · exact .inl ⟨x, k, (Prod.mk.inj heq).1 ▸ hmem⟩
    refine hmono (h.begun job' hold y hentry) fun hy => hdigest ?_
    subst hy
    rcases h.named job y k hmem _ hentry with heq | heq
    · exact absurd heq.symm (digest_ne_tmp _ _)
    · exact tmp_inj.mp heq

/-- A worker renames what is under the name it wrote to. -/
theorem Fetcher.Inv.rename (hdistinct : replies.Distinct rt) (h : f.Inv rt replies) {x : ℕ}
    (hi : f.jobs[i]? = some (job, .moving))
    (hentry : f.disk.entry (replies.tmp rt job.url) = some x) :
    Fetcher.Inv rt replies { f with
      jobs := f.jobs.set i (job, .announcing)
      disk := f.disk.rename (replies.tmp rt job.url) (replies.digest rt job.url) x
      log := log } := by
  have hmem : (job, Stage.moving) ∈ f.jobs := List.mem_of_getElem? hi
  have hstay : ∀ {job' stage}, (job', stage) ∈ f.jobs → stage ≠ .moving →
      (job', stage) ∈ f.jobs.set i (job, .announcing) := by
    intro job' stage hmem hne
    rcases mem_set_or_eq (b := (job, Stage.announcing)) hi hmem with hmem | heq
    · exact hmem
    · exact absurd (Prod.mk.inj heq).2 hne
  have hold : ∀ {p : Job × Stage}, p ∈ f.jobs.set i (job, .announcing) → p.2.atWork →
      p ∈ f.jobs := by
    intro p hp hwork
    rcases List.mem_or_eq_of_mem_set hp with hp | rfl
    · exact hp
    · exact absurd hwork Bool.false_ne_true
  have hmono : ∀ {url y}, Kept rt replies f url y → Kept rt replies { f with
      jobs := f.jobs.set i (job, .announcing)
      disk := f.disk.rename (replies.tmp rt job.url) (replies.digest rt job.url) x
      log := log } url y := fun hkept =>
    hkept.mono rfl (fun job' k hmem => .inl (hstay hmem nofun)) fun job' hmem => hstay hmem nofun
  have hkept : Kept rt replies f job.url x := h.begun job (.inr hmem) x hentry
  constructor
  · exact h.sound.rename hentry
  · intro url y hy
    dsimp only at hy
    rw [Directory.entry_rename] at hy
    split_ifs at hy with hdigest htmp
    · obtain rfl := Option.some.inj hy
      exact (hmono hkept).congr (hdistinct _ _ hdigest.symm)
    · exact hmono (h.stored url y hy)
  · intro job' y k hwriting
    obtain ⟨hlt, hk, hkept⟩ := h.held job' y k (hold hwriting rfl)
    exact ⟨hlt, hk, hmono hkept⟩
  · intro job' y k hwriting name hname
    dsimp only at hname
    rw [Directory.entry_rename] at hname
    split_ifs at hname with hdigest htmp
    · obtain rfl := Option.some.inj hname
      rcases h.named job' x k (hold hwriting rfl) _ hentry with heq | heq
      · exact absurd heq.symm (digest_ne_tmp _ _)
      · exact .inl (hdigest.trans (tmp_inj.mp heq))
    · exact h.named job' y k (hold hwriting rfl) name hname
  · exact fun job₁ job₂ y k₁ k₂ hmem₁ hmem₂ =>
      h.shared job₁ job₂ y k₁ k₂ (hold hmem₁ rfl) (hold hmem₂ rfl)
  · intro job' hbegun y hy
    dsimp only at hy
    rw [Directory.entry_rename] at hy
    split_ifs at hy with hdigest htmp
    · exact absurd hdigest.symm (digest_ne_tmp _ _)
    · refine hmono (h.begun job' ?_ y hy)
      rcases hbegun with ⟨z, k, hmem'⟩ | hmem'
      · exact .inl ⟨z, k, hold hmem' rfl⟩
      · exact .inr (hold hmem' rfl)

end Moves

/-- **What a call preserves.** -/
theorem Fetcher.Inv.work (hdistinct : replies.Distinct rt) (h : f.Inv rt replies) (i : ℕ)
    (outcome : Option ℕ) : (f.work rt path replies i outcome).Inv rt replies := by
  unfold Fetcher.work
  cases hi : f.jobs[i]? with
  | none => exact h
  | some p =>
    obtain ⟨job, stage⟩ := p
    cases stage with
    | fetching =>
      refine h.move hi ?_ nofun nofun
      split_ifs <;> rfl
    | looking =>
      refine h.move hi ?_ nofun nofun
      split_ifs <;> rfl
    | opening =>
      cases outcome with
      | none => exact h.move hi rfl nofun nofun
      | some n => exact h.openWrite hdistinct hi
    | writing x k =>
      cases outcome with
      | none => exact h.move hi rfl nofun fun _ _ _ => rfl
      | some n => exact h.write hdistinct hi rfl
    | moving =>
      cases outcome with
      | none => exact h.move hi rfl nofun nofun
      | some n =>
        cases hentry : f.disk.entry (replies.tmp rt job.url) with
        | none =>
          simp only [Job.step, hentry]
          exact h.move hi rfl nofun nofun
        | some x =>
          simp only [Job.step, hentry]
          exact h.rename hdistinct hi hentry
    | announcing => exact h.move hi rfl nofun nofun
    | done stored => exact h.move hi rfl nofun nofun
    | gaveUp => exact h.move hi rfl (fun _ => rfl) nofun

/-- What is preserved by whatever happens next. -/
theorem Fetcher.Inv.perform (hdistinct : replies.Distinct rt) (h : f.Inv rt replies) (a : Act) :
    (Fetcher.perform rt path replies a f).Inv rt replies := by
  cases a with
  | entry e =>
    refine h.of_disk rfl (fun p hp hwork => ?_) (fun job x k hmem => .inl ?_) fun job hmem => ?_
    · rcases List.mem_append.mp hp with hp | hp
      · exact hp
      · obtain ⟨url, -, rfl⟩ := List.mem_map.mp hp
        exact absurd hwork Bool.false_ne_true
    · exact List.mem_append_left _ hmem
    · exact List.mem_append_left _ hmem
  | worker i outcome => exact h.work hdistinct i outcome

/-! ### Where no call fails -/

variable (rt replies) in
/-- A worker with the bytes of a URL found them under their digest, or put them there. -/
def Stored (f : Fetcher) (url : PyStr) : Prop :=
  ∃ job, replies.digest rt job.url = replies.digest rt url ∧
    ((job, Stage.announcing) ∈ f.jobs ∨ (job, Stage.done true) ∈ f.jobs)

variable (rt replies) in
/-- What holds as long as no call fails. -/
structure Fetcher.Smooth (f : Fetcher) : Prop where
  gaveUp : ∀ job, (job, Stage.gaveUp) ∉ f.jobs
  /-- What a worker has written to is renamed by itself or by another. -/
  atWork : ∀ job stage, (job, stage) ∈ f.jobs → stage.atWork →
    (f.disk.entry (replies.tmp rt job.url)).isSome ∨ Stored rt replies f job.url
  done : ∀ job, (job, Stage.done false) ∈ f.jobs →
    replies.content rt job.url = [] ∨ Stored rt replies f job.url

/-- What is stored stays so. -/
theorem Stored.mono {f' : Fetcher} {url : PyStr} (h : Stored rt replies f url)
    (hkeep : ∀ job, (job, Stage.announcing) ∈ f.jobs ∨ (job, Stage.done true) ∈ f.jobs →
      (job, Stage.announcing) ∈ f'.jobs ∨ (job, Stage.done true) ∈ f'.jobs) :
    Stored rt replies f' url := by
  obtain ⟨job, heq, hmem⟩ := h
  exact ⟨job, heq, hkeep job hmem⟩

section Moves

variable {i : ℕ} {job : Job} {stage stage' : Stage} {log : List LogEvent}

/-- A worker goes on, and what it says of itself is so. -/
theorem Fetcher.Smooth.move {disk : Directory PyStr} (h : f.Smooth rt replies)
    (hi : f.jobs[i]? = some (job, stage)) (hgaveUp : stage' ≠ .gaveUp)
    (hstage : stage = .announcing ∨ stage = .done true →
      stage' = .announcing ∨ stage' = .done true)
    (hdisk : ∀ url, (f.disk.entry (replies.tmp rt url)).isSome →
      (disk.entry (replies.tmp rt url)).isSome ∨
        replies.digest rt job.url = replies.digest rt url ∧ stage' = .announcing)
    (hwork : stage'.atWork → stage.atWork ∨ (disk.entry (replies.tmp rt job.url)).isSome)
    (hdone : stage' = .done false → stage = .done false ∨ replies.content rt job.url = [] ∨
      stage.atWork ∧ f.disk.entry (replies.tmp rt job.url) = none) :
    Fetcher.Smooth rt replies
      { f with jobs := f.jobs.set i (job, stage'), disk := disk, log := log } := by
  have hmem : (job, stage) ∈ f.jobs := List.mem_of_getElem? hi
  have hnew : (job, stage') ∈ f.jobs.set i (job, stage') :=
    List.mem_set (List.getElem?_eq_some_iff.mp hi).1 _
  have hmono : ∀ {url}, Stored rt replies f url → Stored rt replies
      { f with jobs := f.jobs.set i (job, stage'), disk := disk, log := log } url := by
    refine fun hstored => hstored.mono fun job' hmem' => ?_
    rcases hmem' with hmem' | hmem'
    · rcases mem_set_or_eq (b := (job, stage')) hi hmem' with hmem' | heq
      · exact .inl hmem'
      · obtain ⟨rfl, hannouncing⟩ := Prod.mk.inj heq
        rcases hstage (.inl hannouncing.symm) with rfl | rfl
        · exact .inl hnew
        · exact .inr hnew
    · rcases mem_set_or_eq (b := (job, stage')) hi hmem' with hmem' | heq
      · exact .inr hmem'
      · obtain ⟨rfl, hstored⟩ := Prod.mk.inj heq
        rcases hstage (.inr hstored.symm) with rfl | rfl
        · exact .inl hnew
        · exact .inr hnew
  -- what is taken from a name was renamed
  have hway : ∀ {url}, (f.disk.entry (replies.tmp rt url)).isSome ∨ Stored rt replies f url →
      (disk.entry (replies.tmp rt url)).isSome ∨ Stored rt replies
        { f with jobs := f.jobs.set i (job, stage'), disk := disk, log := log } url := by
    rintro url (hsome | hstored)
    · rcases hdisk url hsome with hsome | ⟨heq, rfl⟩
      · exact .inl hsome
      · exact .inr ⟨job, heq, .inl hnew⟩
    · exact .inr (hmono hstored)
  constructor
  · intro job' hmem'
    rcases List.mem_or_eq_of_mem_set hmem' with hmem' | heq
    · exact h.gaveUp job' hmem'
    · exact hgaveUp (Prod.mk.inj heq).2.symm
  · intro job' stage'' hmem' hatWork
    rcases List.mem_or_eq_of_mem_set hmem' with hmem' | heq
    · exact hway (h.atWork job' stage'' hmem' hatWork)
    · obtain ⟨rfl, rfl⟩ := Prod.mk.inj heq
      rcases hwork hatWork with hatWork | hsome
      · exact hway (h.atWork _ stage hmem hatWork)
      · exact .inl hsome
  · intro job' hmem'
    rcases List.mem_or_eq_of_mem_set hmem' with hmem' | heq
    · exact (h.done job' hmem').imp_right hmono
    · obtain ⟨rfl, hdone'⟩ := Prod.mk.inj heq
      rcases hdone hdone'.symm with rfl | hcontent | ⟨hatWork, hnone⟩
      · exact (h.done _ hmem).imp_right hmono
      · exact .inl hcontent
      · refine .inr (hmono ((h.atWork _ stage hmem hatWork).resolve_left ?_))
        rw [hnone]
        exact Bool.false_ne_true

end Moves

theorem Fetcher.Smooth.work (h : f.Smooth rt replies) (i : ℕ) (n : ℕ) :
    (f.work rt path replies i (some n)).Smooth rt replies := by
  unfold Fetcher.work
  cases hi : f.jobs[i]? with
  | none => exact h
  | some p =>
    obtain ⟨job, stage⟩ := p
    have hsame : ∀ {P : PyStr → Prop}, ∀ url, (f.disk.entry (replies.tmp rt url)).isSome →
        (f.disk.entry (replies.tmp rt url)).isSome ∨ P url := fun _ hsome => .inl hsome
    cases stage with
    | fetching =>
      simp only [Job.step]
      split_ifs with hcontent
      · exact h.move hi nofun nofun hsame nofun fun _ => .inr (.inl hcontent)
      · exact h.move hi nofun nofun hsame nofun nofun
    | looking =>
      simp only [Job.step]
      split_ifs
      · exact h.move hi nofun nofun hsame nofun nofun
      · exact h.move hi nofun nofun hsame nofun nofun
    | opening =>
      have hopened : Fetcher.Smooth rt replies { f with
          jobs := f.jobs.set i (job, .writing (f.disk.openWrite (replies.tmp rt job.url)).2 0)
          disk := (f.disk.openWrite (replies.tmp rt job.url)).1
          log := f.log ++ [] } := by
        refine h.move hi nofun nofun (fun url hsome => .inl ?_) (fun _ => .inr ?_) nofun
        · rw [Directory.entry_openWrite]
          split_ifs
          · rfl
          · exact hsome
        · rw [Directory.entry_openWrite, if_pos rfl]
          rfl
      exact hopened
    | writing x k =>
      simp only [Job.step]
      split_ifs
      · exact h.move hi nofun nofun hsame (fun _ => .inl rfl) nofun
      · exact h.move hi nofun nofun hsame (fun _ => .inl rfl) nofun
    | moving =>
      cases hentry : f.disk.entry (replies.tmp rt job.url) with
      | none =>
        simp only [Job.step, hentry]
        exact h.move hi nofun nofun hsame nofun fun _ => .inr (.inr ⟨rfl, hentry⟩)
      | some x =>
        simp only [Job.step, hentry]
        refine h.move hi nofun nofun (fun url hsome => ?_) nofun nofun
        by_cases heq : replies.digest rt job.url = replies.digest rt url
        · exact .inr ⟨heq, rfl⟩
        · refine .inl ?_
          rw [Directory.entry_rename, if_neg (digest_ne_tmp _ _).symm,
            if_neg fun htmp => heq (tmp_inj.mp htmp).symm]
          exact hsome
    | announcing => exact h.move hi nofun (fun _ => .inr rfl) hsame nofun nofun
    | done stored =>
      exact h.move hi nofun (fun hstage => by simpa using hstage) hsame nofun .inl
    | gaveUp => exact absurd (List.mem_of_getElem? hi) (h.gaveUp job)

theorem Fetcher.Smooth.perform (h : f.Smooth rt replies) {a : Act} (ha : a.Succeeds) :
    (Fetcher.perform rt path replies a f).Smooth rt replies := by
  cases a with
  | entry e =>
    have hmono : ∀ {url}, Stored rt replies f url →
        Stored rt replies (Fetcher.perform rt path replies (.entry e) f) url := fun hstored =>
      hstored.mono fun job hmem => hmem.imp (List.mem_append_left _) (List.mem_append_left _)
    have hold : ∀ {p : Job × Stage}, p ∈ f.jobs ++ jobsOf rt e f.fetched →
        p ∈ f.jobs ∨ p.2 = .fetching := by
      intro p hp
      rcases List.mem_append.mp hp with hp | hp
      · exact .inl hp
      · obtain ⟨url, -, rfl⟩ := List.mem_map.mp hp
        exact .inr rfl
    constructor
    · intro job hmem
      exact h.gaveUp job ((hold hmem).resolve_right nofun)
    · intro job stage hmem hwork
      refine (h.atWork job stage ((hold hmem).resolve_right ?_) hwork).imp_right hmono
      rintro rfl
      exact Bool.false_ne_true hwork
    · intro job hmem
      exact (h.done job ((hold hmem).resolve_right nofun)).imp_right hmono
  | worker i outcome =>
    obtain ⟨n, rfl⟩ := Option.isSome_iff_exists.mp ha
    exact h.work i n

/-! ### What was logged -/

/-- A command of the entry has the URL. -/
def Asks (rt : Runtime) (e : Entry) (url : PyStr) : Prop :=
  ∃ cmd ∈ command e, url ∈ extractUrls rt cmd

/-- The job is made from an entry of its session, the first with a command that has the URL, and the
URL passes the guard. -/
def Given (rt : Runtime) (as : List Act) (job : Job) : Prop :=
  ∃ before e rest, as = before ++ .entry e :: rest ∧ Asks rt e job.url ∧
    e.session.getD [] = job.session ∧ urlIsFetchable rt job.url ∧
      ∀ e', .entry e' ∈ before → ¬ Asks rt e' job.url

theorem Given.append {as : List Act} {job : Job} (h : Given rt as job) (a : Act) :
    Given rt (as ++ [a]) job := by
  obtain ⟨before, e, rest, rfl, hgiven⟩ := h
  exact ⟨before, e, rest ++ [a], by rw [List.append_assoc]; rfl, hgiven⟩

variable (rt path replies) in
/-- What is known of the jobs and of the lines between two calls. -/
structure Fetcher.Known (as : List Act) (f : Fetcher) : Prop where
  fetched : ∀ url, url ∈ f.fetched ↔ ∃ e, .entry e ∈ as ∧ Asks rt e url
  once : (f.jobs.map fun p => p.1.url).Nodup
  given : ∀ job stage, (job, stage) ∈ f.jobs → Given rt as job
  /-- Each job that found its bytes stored, in a session, has logged its line. -/
  told : ∃ js : List Job, f.log = js.map (Job.line rt path replies) ∧ js.Nodup ∧
    ∀ job, job ∈ js ↔ (job, Stage.done true) ∈ f.jobs ∧ job.session ≠ []
  /-- What is stored is there. -/
  there : ∀ job, (job, Stage.announcing) ∈ f.jobs ∨ (job, Stage.done true) ∈ f.jobs →
    (f.disk.entry (replies.digest rt job.url)).isSome

/-- The URLs that are handed are each handed once. -/
theorem nodup_hand : (urls fetched : List PyStr) → (hand rt urls fetched).1.Nodup
  | [], _ => List.nodup_nil
  | url :: urls, fetched => by
      rw [hand]
      split_ifs with hfetched hguard
      · exact nodup_hand urls fetched
      · refine List.nodup_cons.mpr ⟨fun hmem => ?_, nodup_hand urls (url :: fetched)⟩
        exact (mem_hand.1.mp hmem).2.1 List.mem_cons_self
      · exact nodup_hand urls (url :: fetched)

/-- What an entry is made into. -/
theorem mem_write {e : Entry} {fetched : List PyStr} {url : PyStr} :
    (url ∈ (write rt e fetched).1 ↔ Asks rt e url ∧ url ∉ fetched ∧ urlIsFetchable rt url) ∧
      (url ∈ (write rt e fetched).2 ↔ Asks rt e url ∨ url ∈ fetched) := by
  rw [write, Asks]
  cases hcmd : command e with
  | none => simp
  | some cmd =>
    dsimp only
    rw [mem_hand.1, mem_hand.2]
    simp

theorem nodup_write (e : Entry) (fetched : List PyStr) : (write rt e fetched).1.Nodup := by
  rw [write]
  cases command e with
  | none => exact List.nodup_nil
  | some cmd => exact nodup_hand _ _

variable (rt path replies) in
theorem Fetcher.Known.start (d : Directory PyStr) :
    Fetcher.Known rt path replies [] { disk := d } where
  fetched url := by simp
  once := List.nodup_nil
  given job stage hmem := absurd hmem List.not_mem_nil
  told := ⟨[], rfl, List.nodup_nil, by simp⟩
  there job hmem := by simp at hmem

theorem Fetcher.Known.entry {as : List Act} (h : f.Known rt path replies as) (e : Entry) :
    (Fetcher.perform rt path replies (.entry e) f).Known rt path replies (as ++ [.entry e]) := by
  have hnew : ∀ {job stage}, (job, stage) ∈ jobsOf rt e f.fetched →
      stage = .fetching ∧ job.url ∈ (write rt e f.fetched).1 ∧ job.session = e.session.getD [] := by
    intro job stage hmem
    obtain ⟨url, hurl, heq⟩ := List.mem_map.mp hmem
    obtain ⟨rfl, rfl⟩ := Prod.mk.inj heq
    exact ⟨rfl, hurl, rfl⟩
  have hold : ∀ {job stage}, stage ≠ .fetching →
      ((job, stage) ∈ f.jobs ++ jobsOf rt e f.fetched ↔ (job, stage) ∈ f.jobs) := fun hne =>
    List.mem_append.trans (or_iff_left fun hmem => hne (hnew hmem).1)
  constructor
  · intro url
    change url ∈ (write rt e f.fetched).2 ↔ _
    rw [mem_write.2, h.fetched]
    simp only [List.mem_append, List.mem_singleton, Act.entry.injEq, or_and_right, exists_or,
      exists_eq_left]
    exact or_comm
  · change ((f.jobs ++ jobsOf rt e f.fetched).map _).Nodup
    rw [List.map_append, List.nodup_append', jobsOf, List.map_map]
    refine ⟨h.once, (nodup_write e f.fetched).map fun _ _ => id, fun _ hold hmem => ?_⟩
    obtain ⟨⟨job, stage⟩, hjob, heq⟩ := List.mem_map.mp hold
    obtain ⟨url, hurl, rfl⟩ := List.mem_map.mp hmem
    have hjoburl : job.url = url := heq
    -- a URL that has a job was asked for
    refine (mem_write.1.mp hurl).2.1 ((h.fetched _).mpr ?_)
    obtain ⟨before, e', rest, rfl, hasks, -⟩ := h.given job stage hjob
    exact ⟨e', List.mem_append_right _ List.mem_cons_self, hjoburl ▸ hasks⟩
  · intro job stage hmem
    rcases List.mem_append.mp hmem with hmem | hmem
    · exact (h.given job stage hmem).append _
    · obtain ⟨-, hurl, hsession⟩ := hnew hmem
      obtain ⟨hasks, hfetched, hguard⟩ := mem_write.1.mp hurl
      exact ⟨as, e, [], rfl, hasks, hsession.symm, hguard, fun e' he' hasks' =>
        hfetched ((h.fetched _).mpr ⟨e', he', hasks'⟩)⟩
  · obtain ⟨js, hlog, hnodup, hjs⟩ := h.told
    refine ⟨js, hlog, hnodup, fun job => ?_⟩
    rw [hjs]
    exact and_congr_left fun _ => (hold Stage.noConfusion).symm
  · intro job hmem
    exact h.there job (hmem.imp (hold Stage.noConfusion).mp (hold Stage.noConfusion).mp)

section Moves

variable {i : ℕ} {job : Job} {stage stage' : Stage} {as : List Act} {a : Act}

theorem map_url_set {jobs : List (Job × Stage)} (hi : jobs[i]? = some (job, stage)) :
    (jobs.set i (job, stage')).map (fun p => p.1.url) = jobs.map fun p => p.1.url := by
  rw [List.map_set]
  refine List.ext_getElem? fun j => ?_
  rw [List.getElem?_set]
  split_ifs with hij hlt
  · rw [← hij, List.getElem?_map, hi]
    rfl
  · rw [List.getElem?_eq_none (by omega)]
  · rfl

/-- A URL has one job, and the job stands at one stage. -/
theorem stage_unique {jobs : List (Job × Stage)} (h : (jobs.map fun p => p.1.url).Nodup)
    (hi : (job, stage) ∈ jobs) (hj : (job, stage') ∈ jobs) : stage' = stage :=
  (Prod.mk.inj (List.inj_on_of_nodup_map h hj hi rfl)).2

/-- A worker goes on. -/
theorem Fetcher.Known.move {disk : Directory PyStr} {lines : List LogEvent}
    (h : f.Known rt path replies as) (ha : ∀ e, a ≠ .entry e)
    (hi : f.jobs[i]? = some (job, stage))
    (hdisk : ∀ url, (f.disk.entry (replies.digest rt url)).isSome →
      (disk.entry (replies.digest rt url)).isSome)
    (hthere : stage' = .announcing → (disk.entry (replies.digest rt job.url)).isSome)
    (hdone : stage' = .done true ↔ stage = .done true ∨ stage = .announcing)
    (hlines : lines = if stage = .announcing ∧ job.session ≠ [] then [job.line rt path replies]
      else []) :
    Fetcher.Known rt path replies (as ++ [a])
      { f with jobs := f.jobs.set i (job, stage'), disk := disk, log := f.log ++ lines } := by
  have hmem : (job, stage) ∈ f.jobs := List.mem_of_getElem? hi
  have hnew : (job, stage') ∈ f.jobs.set i (job, stage') :=
    List.mem_set (List.getElem?_eq_some_iff.mp hi).1 _
  have hstay : ∀ {p}, p ∈ f.jobs → p ∈ f.jobs.set i (job, stage') ∨ p = (job, stage) :=
    mem_set_or_eq hi
  have hfrom : ∀ {p}, p ∈ f.jobs.set i (job, stage') → p ∈ f.jobs ∨ p = (job, stage') :=
    List.mem_or_eq_of_mem_set
  constructor
  · intro url
    change url ∈ f.fetched ↔ _
    rw [h.fetched]
    simp only [List.mem_append, List.mem_singleton, or_and_right, exists_or]
    refine (or_iff_left ?_).symm
    rintro ⟨e, heq, -⟩
    exact ha e heq.symm
  · change ((f.jobs.set i (job, stage')).map _).Nodup
    rw [map_url_set hi]
    exact h.once
  · intro job' stage'' hmem'
    rcases hfrom hmem' with hmem' | heq
    · exact (h.given job' stage'' hmem').append a
    · rw [(Prod.mk.inj heq).1]
      exact (h.given job stage hmem).append a
  · obtain ⟨js, hlog, hnodup, hjs⟩ := h.told
    -- the jobs that are done are those that were, and this one if it logs its line
    have hstored : ∀ job', (job', Stage.done true) ∈ f.jobs.set i (job, stage') ↔
        (job', Stage.done true) ∈ f.jobs ∨ job' = job ∧ stage = .announcing := by
      intro job'
      constructor
      · intro hmem'
        rcases hfrom hmem' with hmem' | heq
        · exact .inl hmem'
        · obtain ⟨rfl, hstage'⟩ := Prod.mk.inj heq
          rcases hdone.mp hstage'.symm with rfl | rfl
          · exact .inl hmem
          · exact .inr ⟨rfl, rfl⟩
      · rintro (hmem' | ⟨rfl, hstage⟩)
        · rcases hstay hmem' with hmem' | heq
          · exact hmem'
          · obtain ⟨rfl, hstage⟩ := Prod.mk.inj heq
            exact hdone.mpr (.inl hstage.symm) ▸ hnew
        · exact hdone.mpr (.inr hstage) ▸ hnew
    subst hlines
    dsimp only
    split_ifs with htells
    · refine ⟨js ++ [job], by rw [hlog, List.map_append]; rfl, ?_, fun job' => ?_⟩
      · refine List.nodup_append'.mpr ⟨hnodup, List.nodup_singleton job, fun job' hjob' heq => ?_⟩
        obtain rfl := List.mem_singleton.mp heq
        have hstage := stage_unique h.once hmem ((hjs job').mp hjob').1
        rw [htells.1] at hstage
        cases hstage
      · rw [List.mem_append, hjs, List.mem_singleton, hstored]
        constructor
        · rintro (⟨hmem', hne⟩ | rfl)
          · exact ⟨.inl hmem', hne⟩
          · exact ⟨.inr ⟨rfl, htells.1⟩, htells.2⟩
        · rintro ⟨hmem' | ⟨rfl, -⟩, hne⟩
          · exact .inl ⟨hmem', hne⟩
          · exact .inr rfl
    · refine ⟨js, by rw [hlog, List.append_nil], hnodup, fun job' => ?_⟩
      rw [hjs, hstored]
      refine and_congr_left fun hne => (or_iff_left ?_).symm
      rintro ⟨rfl, hstage⟩
      exact htells ⟨hstage, hne⟩
  · intro job' hmem'
    have hold : ∀ {stage''}, (job', stage'') ∈ f.jobs.set i (job, stage') →
        stage'' = .announcing ∨ stage'' = .done true →
          (disk.entry (replies.digest rt job'.url)).isSome := by
      intro stage'' hmem'' hstage''
      rcases hfrom hmem'' with hmem'' | heq
      · refine hdisk _ (h.there job' ?_)
        rcases hstage'' with rfl | rfl
        · exact .inl hmem''
        · exact .inr hmem''
      · obtain ⟨rfl, rfl⟩ := Prod.mk.inj heq
        rcases hstage'' with hannouncing | hdone'
        · exact hthere hannouncing
        · refine hdisk _ (h.there _ ?_)
          rcases hdone.mp hdone' with rfl | rfl
          · exact .inr hmem
          · exact .inl hmem
    rcases hmem' with hmem' | hmem'
    · exact hold hmem' (.inl rfl)
    · exact hold hmem' (.inr rfl)

end Moves

theorem Fetcher.Known.work {as : List Act} (h : f.Known rt path replies as) (i : ℕ)
    (outcome : Option ℕ) :
    (f.work rt path replies i outcome).Known rt path replies (as ++ [.worker i outcome]) := by
  have hworker : ∀ e, Act.worker i outcome ≠ .entry e := fun e heq => by cases heq
  unfold Fetcher.work
  cases hi : f.jobs[i]? with
  | none =>
    refine ⟨fun url => ?_, h.once, fun job stage hmem => (h.given job stage hmem).append _, h.told,
      h.there⟩
    rw [h.fetched]
    simp
  | some p =>
    obtain ⟨job, stage⟩ := p
    have hsame : ∀ url, (f.disk.entry (replies.digest rt url)).isSome →
        (f.disk.entry (replies.digest rt url)).isSome := fun _ => id
    cases stage with
    | fetching =>
      simp only [Job.step]
      split_ifs
      · exact h.move hworker hi hsame (by simp) (by simp) (by simp)
      · exact h.move hworker hi hsame (by simp) (by simp) (by simp)
    | looking =>
      simp only [Job.step]
      split_ifs with hexists
      · exact h.move hworker hi hsame (fun _ => hexists) (by simp) (by simp)
      · exact h.move hworker hi hsame (by simp) (by simp) (by simp)
    | opening =>
      cases outcome with
      | none => exact h.move hworker hi hsame (by simp) (by simp) (by simp)
      | some n =>
        have hopened : Fetcher.Known rt path replies (as ++ [.worker i (some n)]) { f with
            jobs := f.jobs.set i (job, .writing (f.disk.openWrite (replies.tmp rt job.url)).2 0)
            disk := (f.disk.openWrite (replies.tmp rt job.url)).1
            log := f.log ++ [] } := by
          refine h.move hworker hi (fun url hsome => ?_) (by simp) (by simp) (by simp)
          rw [Directory.entry_openWrite, if_neg (digest_ne_tmp _ _)]
          exact hsome
        exact hopened
    | writing x k =>
      cases outcome with
      | none => exact h.move hworker hi hsame (by simp) (by simp) (by simp)
      | some n =>
        simp only [Job.step]
        split_ifs
        · exact h.move hworker hi hsame (by simp) (by simp) (by simp)
        · exact h.move hworker hi hsame (by simp) (by simp) (by simp)
    | moving =>
      cases outcome with
      | none => exact h.move hworker hi hsame (by simp) (by simp) (by simp)
      | some n =>
        cases hentry : f.disk.entry (replies.tmp rt job.url) with
        | none =>
          simp only [Job.step, hentry]
          exact h.move hworker hi hsame (by simp) (by simp) (by simp)
        | some x =>
          simp only [Job.step, hentry]
          refine h.move hworker hi (fun url hsome => ?_) (fun _ => ?_) (by simp) (by simp)
          · rw [Directory.entry_rename, if_neg (digest_ne_tmp _ _)]
            split_ifs
            · rfl
            · exact hsome
          · rw [Directory.entry_rename, if_pos rfl]
            rfl
    | announcing =>
      refine h.move hworker hi hsame (by simp) (by simp) ?_
      by_cases hsession : job.session = [] <;> simp [hsession]
    | done stored => exact h.move hworker hi hsame (by simp) (by simp) (by simp)
    | gaveUp => exact h.move hworker hi hsame (by simp) (by simp) (by simp)

/-! ### Runs -/

variable (rt replies) in
/-- What the plugin finds in the directory: under a digest, the bytes of it. -/
structure Clean (d : Directory PyStr) : Prop where
  sound : d.Sound
  whole : ∀ url x, d.entry (replies.digest rt url) = some x → d.file x = replies.content rt url

theorem Clean.inv (h : Clean rt replies d) : Fetcher.Inv rt replies { disk := d } where
  sound := h.sound
  stored url x hx := .inl (h.whole url x hx)
  held job x k hmem := absurd hmem List.not_mem_nil
  named job x k hmem := absurd hmem List.not_mem_nil
  shared job job' x k k' hmem := absurd hmem List.not_mem_nil
  begun job hbegun := by simp at hbegun

/-- **What holds after every run.** -/
theorem inv_afterActs (hdistinct : replies.Distinct rt) (hclean : Clean rt replies d)
    (as : List Act) : (afterActs rt path replies d as).Inv rt replies ∧
      (afterActs rt path replies d as).Known rt path replies as := by
  induction as using List.reverseRecOn with
  | nil => exact ⟨hclean.inv, .start rt path replies d⟩
  | append_singleton as a ih =>
    have hstep : afterActs rt path replies d (as ++ [a]) =
        Fetcher.perform rt path replies a (afterActs rt path replies d as) :=
      List.foldl_concat _ _ _ _
    rw [hstep]
    refine ⟨ih.1.perform hdistinct a, ?_⟩
    cases a with
    | entry e => exact ih.2.entry e
    | worker i outcome => exact ih.2.work i outcome

theorem smooth_afterActs (d : Directory PyStr) {as : List Act} (has : ∀ a ∈ as, a.Succeeds) :
    (afterActs rt path replies d as).Smooth rt replies := by
  induction as using List.reverseRecOn with
  | nil => exact ⟨by simp [afterActs, after], by simp [afterActs, after],
      by simp [afterActs, after]⟩
  | append_singleton as a ih =>
    have hstep : afterActs rt path replies d (as ++ [a]) =
        Fetcher.perform rt path replies a (afterActs rt path replies d as) :=
      List.foldl_concat _ _ _ _
    rw [hstep]
    exact (ih fun b hb => has b (List.mem_append_left _ hb)).perform
      (has a (List.mem_append_right _ (List.mem_singleton_self a)))

/-- **The downloads in every order of the calls**: what is under the digest of a URL is its bytes,
unless a worker with these bytes is still at it or gave up. Where no call failed and the workers are
through, everything that was fetched is there, whole, and one of those who fetched it told so. -/
theorem kept_after (hdistinct : replies.Distinct rt) (hclean : Clean rt replies d)
    (as : List Act) {f : Fetcher} (hf : f = afterActs rt path replies d as) :
    (∀ url x, f.disk.entry (replies.digest rt url) = some x →
      f.disk.file x = replies.content rt url ∨
        ∃ job stage, (job, stage) ∈ f.jobs ∧
          replies.content rt job.url = replies.content rt url ∧
          (stage = .gaveUp ∨ ∃ k, stage = .writing x k)) ∧
      ((∀ a ∈ as, a.Succeeds) → (∀ p ∈ f.jobs, ∃ stored, p.2 = .done stored) →
        ∀ p ∈ f.jobs, replies.content rt p.1.url ≠ [] →
          ∃ x job, f.disk.entry (replies.digest rt p.1.url) = some x ∧
            f.disk.file x = replies.content rt p.1.url ∧ (job, Stage.done true) ∈ f.jobs ∧
            replies.content rt job.url = replies.content rt p.1.url) := by
  have hholds : f.Inv rt replies ∧ f.Known rt path replies as :=
    hf ▸ inv_afterActs hdistinct hclean as
  obtain ⟨hinv, hknown⟩ := hholds
  have hkept : ∀ url x, f.disk.entry (replies.digest rt url) = some x →
      f.disk.file x = replies.content rt url ∨
        ∃ job stage, (job, stage) ∈ f.jobs ∧
          replies.content rt job.url = replies.content rt url ∧
          (stage = .gaveUp ∨ ∃ k, stage = .writing x k) := by
    intro url x hentry
    rcases hinv.stored url x hentry with hwhole | ⟨job, k, hmem, heq, -⟩ | ⟨job, hmem, heq⟩
    · exact .inl hwhole
    · exact .inr ⟨job, _, hmem, heq, .inr ⟨k, rfl⟩⟩
    · exact .inr ⟨job, _, hmem, heq, .inl rfl⟩
  refine ⟨hkept, fun has hdone p hp hcontent => ?_⟩
  have hsmooth : f.Smooth rt replies := hf ▸ smooth_afterActs d has
  -- the worker found the bytes stored, or another did
  obtain ⟨job, heq, hjob⟩ : ∃ job, replies.digest rt job.url = replies.digest rt p.1.url ∧
      (job, Stage.done true) ∈ f.jobs := by
    obtain ⟨stored, hstored⟩ := hdone p hp
    obtain ⟨job, stage⟩ := p
    obtain rfl : stage = .done stored := hstored
    cases stored with
    | true => exact ⟨job, rfl, hp⟩
    | false =>
      obtain ⟨job', heq, hmem | hmem⟩ := (hsmooth.done job hp).resolve_left hcontent
      · obtain ⟨stored, hstored⟩ := hdone _ hmem
        cases hstored
      · exact ⟨job', heq, hmem⟩
  obtain ⟨x, hx⟩ := Option.isSome_iff_exists.mp (hknown.there job (.inr hjob))
  rw [heq] at hx
  refine ⟨x, job, hx, ?_, hjob, hdistinct _ _ heq⟩
  rcases hkept _ x hx with hwhole | ⟨job', stage, hmem, -, rfl | ⟨k, rfl⟩⟩
  · exact hwhole
  · exact absurd hmem (hsmooth.gaveUp job')
  · obtain ⟨stored, hstored⟩ := hdone _ hmem
    cases hstored

/-! ### A race -/

/-- Hash functions that tell the empty byte string from the others. -/
def demoHashes : Hashlib :=
  { Hashlib.empty with
    sha256 := fun data => List.replicate 64 (cp (if data = [] then 'e' else 'a'))
    length_sha256 := fun _ => List.length_replicate }

/-- A runtime with these. -/
def demoRuntime : Runtime := { Runtime.basic with hashlib := demoHashes }

/-- Servers that all send the same two bytes. -/
def demoReplies : Replies := ⟨fun _ => ⟨fun _ => .osError, []⟩, fun _ => some [0x7f, 0x45]⟩

/-- A command with a URL, in a session. -/
def demoCommand (s cmd : String) : Act := .entry ⟨some (str s),
  [(key "eventid", .str (str "cowrie.command.input")), (key "input", .str (str cmd))]⟩

/-- The second worker empties the file of the first, which is renamed before the second is through
with it. -/
def demoRace : List Act :=
  [demoCommand "a1" "sh -c 'fetch http://8.8.8.8/x'",
    demoCommand "b2" "sh -c 'fetch http://8.8.8.8/y'"] ++
    ([0, 0, 0, 0, 1, 1, 1, 0, 0, 1, 1, 1, 0] : List ℕ).map fun i => .worker i (some 0)

/-- An empty directory. -/
def demoDirectory : Directory PyStr := ⟨fun _ => none, fun _ => [], 0⟩

theorem content_demoReplies (url : PyStr) : demoReplies.content demoRuntime url = [] ∨
    demoReplies.content demoRuntime url = [0x7f, 0x45] := by
  rw [Replies.content]
  split_ifs
  · exact .inr rfl
  · exact .inl rfl

theorem distinct_demoReplies : demoReplies.Distinct demoRuntime := by
  intro url url' heq
  rw [Replies.digest, Replies.digest] at heq
  rcases content_demoReplies url with h | h <;> rcases content_demoReplies url' with h' | h' <;>
    rw [h, h'] at heq ⊢
  · exact absurd heq (by decide)
  · exact absurd heq (by decide)

theorem clean_demoDirectory : Clean demoRuntime demoReplies demoDirectory :=
  ⟨⟨fun h => (by cases h), fun h => (by cases h)⟩, fun _ _ h => (by cases h)⟩

theorem kept_after_race : ∃ x job,
    (afterActs demoRuntime [] demoReplies demoDirectory demoRace).disk.entry
        (demoReplies.digest demoRuntime (str "http://8.8.8.8/y")) = some x ∧
      (afterActs demoRuntime [] demoReplies demoDirectory demoRace).disk.file x =
        demoReplies.content demoRuntime (str "http://8.8.8.8/y") ∧
      (job, Stage.done true) ∈ (afterActs demoRuntime [] demoReplies demoDirectory demoRace).jobs ∧
      demoReplies.content demoRuntime job.url =
        demoReplies.content demoRuntime (str "http://8.8.8.8/y") := by
  have hjobs : (afterActs demoRuntime [] demoReplies demoDirectory demoRace).jobs =
      [(⟨str "http://8.8.8.8/x", str "a1"⟩, .done true),
        (⟨str "http://8.8.8.8/y", str "b2"⟩, .done false)] := by
    decide +kernel
  obtain ⟨-, hthrough⟩ := @kept_after demoRuntime [] demoReplies demoDirectory
    distinct_demoReplies clean_demoDirectory demoRace _ rfl
  generalize afterActs demoRuntime [] demoReplies demoDirectory demoRace = f at hjobs hthrough ⊢
  have hdone : ∀ p ∈ f.jobs, ∃ stored, p.2 = .done stored := by
    rw [hjobs]
    exact List.forall_mem_cons.mpr ⟨⟨true, rfl⟩, List.forall_mem_singleton.mpr ⟨false, rfl⟩⟩
  refine hthrough ?_ hdone (⟨str "http://8.8.8.8/y", str "b2"⟩, .done false) ?_ ?_
  · intro a ha
    rcases List.mem_append.mp ha with ha | ha
    · rcases List.mem_cons.mp ha with rfl | ha
      · trivial
      · obtain rfl := List.mem_singleton.mp ha
        trivial
    · obtain ⟨i, -, rfl⟩ := List.mem_map.mp ha
      rfl
  · rw [hjobs]
    exact List.mem_cons_of_mem _ List.mem_cons_self
  · decide +kernel

end C2Engine.Sensor.UrlFetcher
