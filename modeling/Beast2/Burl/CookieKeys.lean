import Beast2.Lib.LastWriter
import Beast2.Burl.CookieJar

/-!
# The keys of a cookie jar

The identity of a cookie is its name, domain and path. `add` is a write to a last-writer-wins list
with these as the key (`add_eq_put`, `LastWriter`): it takes out the cookies of its key before it
appends its own, so a sequence of calls leaves for each key the last cookie that was not refused
(`jar_lastWriterWins`).

`operator>>` appends what it reads without such a check. A run that reads files keeps the keys of
the jar distinct exactly as long as each file it reads names no key twice and none of the jar's
(`run_identityUnique_iff`).
-/

namespace Beast2.Burl

/-- The identity of a cookie. Reference: `cookie.cpp:332-333`. -/
def Cookie.key (c : Cookie) : List Char × Option (List Char) × Option (List Char) :=
  (c.name, c.path, c.domain)

theorem sameKey_eq (c o : Cookie) : sameKey c o = decide (o.key = c.key) := by
  rw [Bool.eq_iff_iff]
  simp [sameKey, Cookie.key, @eq_comm _ o.name, @eq_comm _ o.path, @eq_comm _ o.domain, and_assoc]

/-- A call of `add` that does not refuse its cookie is a write under the cookie's key. -/
theorem add_eq_put {psl : Psl} {now : Int} {url : Url} {c₀ c : Cookie}
    (h : toStore psl url c₀ = some c) (jar : List Cookie) :
    add psl now jar url c₀ = LastWriter.put Cookie.key (fun o => !expiredAtAdd now o) jar c := by
  simp only [add, h, LastWriter.put, sameKey_eq]
  split
  · next hexp => simp [hexp]
  · next hexp => simp [hexp]

/-! ## Calls of `add` alone -/

/-- A call of `cookie_jar::add` at a reading of the clock. -/
structure Addition where
  url : Url
  cookie : Cookie
  now : Int

namespace Addition

/-- The cookie of a call with its domain and path filled in. -/
def stored (x : Addition) : Cookie := Burl.stored x.url x.cookie

/-- The key that a call writes. -/
def key (x : Addition) : List Char × Option (List Char) × Option (List Char) := x.stored.key

/-- The cookie of a call is not expired. -/
def live (x : Addition) : Bool := !expiredAtAdd x.now x.cookie

/-- The cookie of a call is not refused: it is no Secure one from an insecure URL. -/
def accepted (x : Addition) : Bool := !x.cookie.secure || x.url.schemeId == .https

theorem toStore_of_accepted {x : Addition} (h : x.accepted = true) :
    toStore none x.url x.cookie = some x.stored := by
  refine toStore_eq_some_iff.2 ⟨fun _ _ => rfl, fun hsecure => ?_, rfl⟩
  simpa [accepted, hsecure] using h

theorem toStore_of_refused {x : Addition} (h : x.accepted = false) :
    toStore none x.url x.cookie = none := by
  cases hstore : toStore none x.url x.cookie with
  | none => rfl
  | some c =>
    obtain ⟨-, hurl, -⟩ := toStore_eq_some_iff.1 hstore
    simp only [accepted, Bool.or_eq_false_iff, Bool.not_eq_false'] at h
    simp [hurl h.1] at h

end Addition

/-- The jar after a sequence of calls of `add` on the empty one. -/
def addAll (psl : Psl) (xs : List Addition) : List Cookie :=
  xs.foldl (fun jar x => add psl x.now jar x.url x.cookie) []

theorem addAll_append (psl : Psl) (xs : List Addition) (x : Addition) :
    addAll psl (xs ++ [x]) = add psl x.now (addAll psl xs) x.url x.cookie := by
  simp [addAll]

/-- Without libpsl the jar is the list that the accepted calls write. -/
theorem addAll_eq (xs : List Addition) :
    addAll none xs = ((xs.filter Addition.accepted).foldl
      (LastWriter.put Addition.key Addition.live) []).map Addition.stored := by
  induction xs using List.reverseRecOn with
  | nil => rfl
  | append_singleton xs x ih =>
    rw [addAll_append, List.filter_append]
    cases hx : x.accepted with
    | false => simp [add, Addition.toStore_of_refused hx, hx, ih]
    | true =>
      rw [add_eq_put (Addition.toStore_of_accepted hx), ih, List.filter_cons_of_pos hx,
        List.filter_nil, List.foldl_append, List.foldl_cons, List.foldl_nil]
      exact (LastWriter.map_put _ _ (fun _ => rfl) _ rfl).symm

/-- The jar is a last-writer-wins store, in a build without libpsl. After any calls of `add`:
it holds the cookies of the accepted calls that are not expired and that no accepted call of their
key follows, in the order of the calls; so for each key it holds the cookie of the last accepted
call with it, or none if that was expired; a further call that is refused leaves the list as it is,
and no further call alters the cookies of other keys. -/
theorem jar_lastWriterWins (xs : List Addition) :
    addAll none xs = (LastWriter.survivors Addition.key Addition.live
      (xs.filter Addition.accepted)).map Addition.stored ∧
    (∀ k, (addAll none xs).filter (fun c => c.key = k) =
      match ((xs.filter Addition.accepted).filter fun x => x.key = k).getLast? with
      | some x => if x.live then [x.stored] else []
      | none => []) ∧
    ∀ x, (x.accepted = false → addAll none (xs ++ [x]) = addAll none xs) ∧
      ∀ k ≠ x.key, (addAll none (xs ++ [x])).filter (fun c => c.key = k) =
        (addAll none xs).filter fun c => c.key = k := by
  have hjar : addAll none xs = (LastWriter.survivors Addition.key Addition.live
      (xs.filter Addition.accepted)).map Addition.stored := by
    rw [addAll_eq, LastWriter.foldl_put, List.filter_nil, List.nil_append]
  refine ⟨hjar, fun k => ?_, ?_⟩
  · have hkey : (fun c : Cookie => decide (c.key = k)) ∘ Addition.stored =
        fun x => decide (x.key = k) := rfl
    rw [hjar, List.filter_map, hkey, LastWriter.filter_survivors]
    cases ((xs.filter Addition.accepted).filter fun x => x.key = k).getLast? with
    | none => rfl
    | some x => cases hlive : x.live <;> simp [hlive]
  · intro x
    rw [addAll_append]
    refine ⟨fun hx => ?_, fun k hk => ?_⟩
    · simp [add, Addition.toStore_of_refused hx]
    · cases hx : x.accepted with
      | false => simp [add, Addition.toStore_of_refused hx]
      | true =>
        rw [add_eq_put (Addition.toStore_of_accepted hx)]
        exact LastWriter.filter_put Cookie.key _ hk _

/-! ## Files in between -/

/-- The cookies on the lines of a file, up to the first line that the reader does not accept. -/
def fileCookies (text : List Char) : List Cookie :=
  let parsed := ((getlines text).filter fun l => !skipped l).map parseNetscapeCookie
  (parsed.takeWhile Except.isOk).filterMap Except.toOption

/-- `operator>>` appends the cookies of the file. -/
theorem readJar_fst (jar : List Cookie) (text : List Char) :
    (readJar jar text).1 = jar ++ fileCookies text := by
  rw [readJar, fileCookies]
  generalize getlines text = ls
  induction ls generalizing jar with
  | nil => simp [readLoop]
  | cons l ls ih =>
    cases hskip : skipped l with
    | true => simpa [readLoop, hskip] using ih jar
    | false =>
      cases hparse : parseNetscapeCookie l with
      | error e => simp [readLoop, hskip, hparse, Except.isOk, Except.toBool]
      | ok c =>
        simp [readLoop, hskip, hparse, ih, Except.isOk, Except.toBool, Except.toOption,
          List.takeWhile_cons]

/-- A file that brings new cookies only: it names no key twice and no key of the jar. -/
structure BringsNew (jar : List Cookie) (text : List Char) : Prop where
  once : ((fileCookies text).map Cookie.key).Nodup
  other : ∀ c ∈ jar, ∀ o ∈ fileCookies text, c.key ≠ o.key

/-- No two cookies of a jar have the same name, domain and path, and no two that `make_field` emits
from it. -/
structure IdentityUnique (jar : List Cookie) : Prop where
  keys : (jar.map Cookie.key).Nodup
  fields : ∀ url now, ((emitted url now jar).map Cookie.key).Nodup

theorem identityUnique_iff {jar : List Cookie} :
    IdentityUnique jar ↔ (jar.map Cookie.key).Nodup := by
  refine ⟨fun h => h.keys, fun h => ⟨h, fun url now => ?_⟩⟩
  exact (List.filter_sublist.map Cookie.key).nodup h

/-- A jar that has lost cookies keeps the keys distinct. -/
theorem IdentityUnique.filter {jar : List Cookie} (h : IdentityUnique jar) (p : Cookie → Bool) :
    IdentityUnique (jar.filter p) :=
  identityUnique_iff.2 ((List.filter_sublist.map Cookie.key).nodup h.keys)

/-- Reading a file keeps the keys distinct exactly if it brings new cookies only. -/
theorem identityUnique_readJar {jar : List Cookie} {text : List Char} :
    IdentityUnique (readJar jar text).1 ↔ IdentityUnique jar ∧ BringsNew jar text := by
  rw [identityUnique_iff, identityUnique_iff, readJar_fst, List.map_append, List.nodup_append']
  refine ⟨?_, ?_⟩
  · rintro ⟨hjar, hfile, hdisj⟩
    refine ⟨hjar, hfile, fun c hc o ho hkey => ?_⟩
    exact hdisj (List.mem_map_of_mem hc) (hkey ▸ List.mem_map_of_mem ho)
  · rintro ⟨hjar, hfile, hother⟩
    refine ⟨hjar, hfile, fun k hk hk' => ?_⟩
    obtain ⟨c, hc, rfl⟩ := List.mem_map.1 hk
    obtain ⟨o, ho, hkey⟩ := List.mem_map.1 hk'
    exact hother c hc o ho hkey.symm

/-- A call of `add` keeps the keys distinct. -/
theorem identityUnique_add {jar : List Cookie} (h : IdentityUnique jar) (psl : Psl) (now : Int)
    (url : Url) (c : Cookie) : IdentityUnique (add psl now jar url c) := by
  cases hstore : toStore psl url c with
  | none =>
    rw [add, hstore]
    exact h
  | some c' =>
    rw [add_eq_put hstore, identityUnique_iff]
    exact LastWriter.nodup_put _ _ h.keys _

/-- A call keeps the keys distinct, a read if the file brings new cookies only. -/
theorem JarOp.identityUnique {psl : Psl} {op : JarOp} {jar jar' : List Cookie}
    (hjar : ∀ c ∈ jar, Complete c) (h : IdentityUnique jar)
    (hread : ∀ text, op = .read text → BringsNew jar text)
    (happly : op.apply psl jar = some jar') : IdentityUnique jar' := by
  cases op with
  | add url c now =>
    cases happly
    exact identityUnique_add h psl now url c
  | makeField url now =>
    rw [apply, makeField_eq hjar] at happly
    cases happly
    exact h.filter _
  | clearSessionCookies =>
    cases happly
    exact h.filter _
  | read text =>
    cases happly
    exact identityUnique_readJar.2 ⟨h, hread text rfl⟩

/-- In a run of calls the jar never has two cookies of one identity exactly if each file, when it is
read, brings new cookies only. -/
theorem run_identityUnique_iff (psl : Psl) (ops : List JarOp) :
    (∀ ops₁, ops₁ <+: ops → ∀ jar, runJar psl ops₁ = some jar → IdentityUnique jar) ↔
      ∀ ops₁ text, ops₁ ++ [.read text] <+: ops → ∀ jar, runJar psl ops₁ = some jar →
        BringsNew jar text := by
  refine ⟨?_, ?_⟩
  · intro h ops₁ text hpre jar hrun
    have hafter : runJar psl (ops₁ ++ [.read text]) = some (readJar jar text).1 := by
      rw [runJar_append, hrun]
      rfl
    exact (identityUnique_readJar.1 (h _ hpre _ hafter)).2
  · intro h ops₁
    induction ops₁ using List.reverseRecOn with
    | nil =>
      rintro - jar ⟨⟩
      exact identityUnique_iff.2 List.nodup_nil
    | append_singleton ops₁ op ih =>
      intro hpre jar' hrun'
      obtain ⟨jar, hrun, hjar⟩ := exists_runJar psl ops₁
      rw [runJar_append, hrun] at hrun'
      have hunique := ih ((List.prefix_append _ _).trans hpre) jar hrun
      refine JarOp.identityUnique hjar hunique ?_ hrun'
      rintro text rfl
      exact h ops₁ text hpre jar hrun

/-- A file with a cookie of `bank.com`. -/
def idFile (value : List Char) : List Char :=
  "bank.com\tFALSE\t/\tTRUE\t0\tid\t".toList ++ value

/-- Two files with the same cookie are read, and both its values are sent. -/
theorem idFile_not_unique :
    (runJar none [.read (idFile ['1']), .read (idFile ['2'])]).bind
      (fun jar => (makeField 0 jar bank).map Prod.fst) = some "id=1; id=2; ".toList ∧
    ¬ ∀ ops₁, ops₁ <+: [.read (idFile ['1']), .read (idFile ['2'])] → ∀ jar,
      runJar none ops₁ = some jar → IdentityUnique jar := by
  refine ⟨by decide +kernel, fun h => ?_⟩
  have hunique := (h _ (List.prefix_refl _) _ rfl).keys
  exact absurd hunique (by decide +kernel)

end Beast2.Burl
