import CHttp.UrlParser

/-! The URL parser on every buffer, also on those that are longer than a `uint16_t` can count:
it returns, and what it records lies inside the buffer. -/
namespace CHttp

/-- The field ends at `n` or before. -/
def UrlFieldData.EndsBy (d : UrlFieldData) (n : ℕ) : Prop := d.off.toNat+d.len.toNat ≤ n

/-- The fields that are set lie in the first `n` bytes; the others are those of `u₀`. -/
structure ParserUrl.Within (u u₀ : ParserUrl) (n : ℕ) : Prop where
  fits : ∀ uf ∈ u.fieldSet, (u.fieldData uf).EndsBy n
  frame : ∀ uf ∉ u.fieldSet, u.fieldData uf = u₀.fieldData uf

theorem uint16_add_one_le (x : UInt16) : (x+1).toNat ≤ x.toNat+1 := by
  rw [UInt16.toNat_add]
  exact Nat.mod_le _ _

theorem uint16_ofNat_le (n : ℕ) : (UInt16.ofNat n).toNat ≤ n := by
  rw [UInt16.toNat_ofNat']
  exact Nat.mod_le _ _

theorem uint16_toNat_ofNat {n : ℕ} (h : n < 65536) : (UInt16.ofNat n).toNat = n := by
  rw [UInt16.toNat_ofNat']
  exact Nat.mod_eq_of_lt h

section record

variable {u u₀ : ParserUrl} {uf : UrlField} {n m : ℕ}

theorem UrlFieldData.EndsBy.mono {d : UrlFieldData} (h : d.EndsBy n) (hm : n ≤ m) : d.EndsBy m :=
  le_trans h hm

theorem ParserUrl.Within.mono (h : u.Within u₀ n) (hm : n ≤ m) : u.Within u₀ m :=
  ⟨fun uf huf => (h.fits uf huf).mono hm, h.frame⟩

/-- A record that differs in one field, which is set. -/
theorem ParserUrl.Within.change {v : ParserUrl} (h : u.Within u₀ n)
    (hset : v.fieldSet = insert uf u.fieldSet) (hself : (v.fieldData uf).EndsBy n)
    (hother : ∀ f, f ≠ uf → v.fieldData f = u.fieldData f) : v.Within u₀ n := by
  constructor
  · intro f hf
    rw [hset] at hf
    by_cases hfu : f = uf
    · rw [hfu]
      exact hself
    · rw [hother f hfu]
      exact h.fits f (Finset.mem_of_mem_insert_of_ne hf hfu)
  · intro f hf
    rw [hset, Finset.mem_insert, not_or] at hf
    rw [hother f hf.1]
    exact h.frame f hf.2

theorem ParserUrl.begin_endsBy (u : ParserUrl) (uf : UrlField) (p : ℕ) (len : UInt16) :
    ((u.begin uf p len).fieldData uf).EndsBy (p+len.toNat) := by
  rw [ParserUrl.begin_self]
  exact Nat.add_le_add_right (uint16_ofNat_le p) _

theorem ParserUrl.grow_endsBy (h : (u.fieldData uf).EndsBy n) :
    ((u.grow uf).fieldData uf).EndsBy (n+1) := by
  have hlen := uint16_add_one_le (u.fieldData uf).len
  rw [UrlFieldData.EndsBy] at h
  rw [ParserUrl.grow_self, UrlFieldData.EndsBy]
  dsimp only
  omega

theorem ParserUrl.begin_within (h : u.Within u₀ n) (p : ℕ) (len : UInt16) (hp : p+len.toNat ≤ n) :
    (u.begin uf p len).Within u₀ n :=
  h.change rfl ((u.begin_endsBy uf p len).mono hp) fun f hf => u.begin_of_ne uf f p len hf

theorem ParserUrl.grow_within (h : u.Within u₀ n) (huf : uf ∈ u.fieldSet)
    (hends : ((u.grow uf).fieldData uf).EndsBy n) : (u.grow uf).Within u₀ n :=
  h.change (Finset.insert_eq_of_mem huf).symm hends fun f hf => u.grow_of_ne uf f hf

end record

/-- The switch of the loop never reaches its default. -/
theorem parseUrlChar_ne_spaces (s : UrlState) (ch : UInt8) :
    parseUrlChar s ch ≠ .spacesBeforeUrl := by
  unfold parseUrlChar urlSwitch parseServerChar
  cases s <;> dsimp only <;> split_ifs <;> nofun

theorem urlAction_ne_unexpected {s : UrlState} (hs : s ≠ .spacesBeforeUrl) :
    urlAction s ≠ .unexpected := by
  cases s with
  | spacesBeforeUrl => exact absurd rfl hs
  | _ => decide

/-- What the loop keeps: its fields lie in what it has read, and the last one is set. -/
structure UrlLocals.Bounded (l : UrlLocals) (u₀ : ParserUrl) (p : ℕ) : Prop where
  within : l.u.Within u₀ p
  last : ∀ uf, l.oldUf = some uf → uf ∈ l.u.fieldSet

theorem UrlLocals.Bounded.onField {l : UrlLocals} {u₀ : ParserUrl} {p : ℕ} (h : l.Bounded u₀ p)
    (uf : UrlField) : (l.onField uf p).Bounded u₀ (p+1) := by
  rw [UrlLocals.onField]
  split_ifs with hold
  · have huf := h.last uf hold
    have hends := ParserUrl.grow_endsBy (h.within.fits uf huf)
    refine ⟨ParserUrl.grow_within (h.within.mono (Nat.le_succ p)) huf hends, ?_⟩
    intro f hf
    exact h.last f hf
  · refine ⟨ParserUrl.begin_within (h.within.mono (Nat.le_succ p)) p 1 le_rfl, ?_⟩
    intro f hf
    rw [← Option.some.inj hf]
    exact Finset.mem_insert_self _ _

/-- The loop returns, by induction on the bytes that are left. -/
theorem urlLoop_bounded (u₀ : ParserUrl) (rest : Bytes) (p : ℕ) (l : UrlLocals)
    (h : l.Bounded u₀ p) :
    ∃ l', urlLoop p l rest = .ok l' ∧ l'.Bounded u₀ (p+rest.length) := by
  induction rest generalizing p l with
  | nil => exact ⟨l, rfl, h⟩
  | cons ch rest ih =>
    rw [List.length_cons, Nat.add_comm rest.length 1, ← Nat.add_assoc]
    have hl : ({ l with
        s := parseUrlChar l.s ch
        foundAt := l.foundAt || parseUrlChar l.s ch = .serverWithAt } : UrlLocals).Bounded u₀ p :=
      ⟨h.within, h.last⟩
    rw [urlLoop]
    cases hact : urlAction (parseUrlChar l.s ch) with
    | fail =>
      refine ⟨_, rfl, hl.within.mono ?_, hl.last⟩
      omega
    | skip => exact ih (p+1) _ ⟨hl.within.mono (Nat.le_succ p), hl.last⟩
    | field uf => exact ih (p+1) _ (hl.onField uf)
    | unexpected =>
      exact absurd hact (urlAction_ne_unexpected (parseUrlChar_ne_spaces l.s ch))

/-- The states in front of the host's first byte. -/
def HttpHostState.beforeHost : HttpHostState → Bool
  | .userinfoStart | .userinfo | .hostStart | .hostV6Start => true
  | _ => false

section hostChar

variable {s : HttpHostState} {ch : UInt8}

/-- Nothing leads back in front of the host. -/
theorem beforeHost_of_step (h : (cHttpParseHostChar s ch).beforeHost = true) :
    s.beforeHost = true := by
  revert h
  unfold cHttpParseHostChar
  cases s <;> dsimp only <;> (try split_ifs) <;> decide

theorem beforeHost_of_host (h : cHttpParseHostChar s ch = .host) (hs : s ≠ .host) :
    s.beforeHost = true := by
  revert h hs
  unfold cHttpParseHostChar
  cases s <;> dsimp only <;> (try split_ifs) <;> decide

theorem beforeHost_of_hostV6 (h : cHttpParseHostChar s ch = .hostV6) (hs : s ≠ .hostV6) :
    s.beforeHost = true := by
  revert h hs
  unfold cHttpParseHostChar
  cases s <;> dsimp only <;> (try split_ifs) <;> decide

end hostChar

theorem byteAt_ok (buf : Bytes) (p : ℕ) (h : p < buf.length) : byteAt buf p = .ok buf[p] := by
  rw [byteAt, List.getElem?_eq_getElem h]

/-- What the loop over the host keeps. The fields it works on end where it stands; the host
has no length before its first byte. -/
structure HostBounded (u₀ : ParserUrl) (n : ℕ) (s : HttpHostState) (p : ℕ) (u : ParserUrl) : Prop where
  within : u.Within u₀ n
  isSet : UrlField.host ∈ u.fieldSet
  host : (u.fieldData .host).EndsBy p
  fresh : s.beforeHost = true → (u.fieldData .host).len = 0
  port : s = .hostPort → UrlField.port ∈ u.fieldSet ∧ (u.fieldData .port).EndsBy p
  userinfo : s = .userinfo → UrlField.userinfo ∈ u.fieldSet ∧ (u.fieldData .userinfo).EndsBy p

section host

variable {u₀ u : ParserUrl} {n p : ℕ} {s newS : HttpHostState}

/-- A field other than the host is begun or goes on. -/
theorem otherField_bounded (h : u.Within u₀ n) (hp : p+1 ≤ n) (uf : UrlField) (going : Prop)
    [Decidable going] (hgoing : going → uf ∈ u.fieldSet ∧ (u.fieldData uf).EndsBy p) :
    let v := (if ¬going then u.begin uf p 0 else u).grow uf
    v.Within u₀ n ∧ uf ∈ v.fieldSet ∧ (v.fieldData uf).EndsBy (p+1) ∧
      (∀ f ∈ u.fieldSet, f ∈ v.fieldSet) ∧ ∀ f, f ≠ uf → v.fieldData f = u.fieldData f := by
  intro v
  have hstart : ∃ w, (if ¬going then u.begin uf p 0 else u) = w ∧ w.Within u₀ n ∧
      uf ∈ w.fieldSet ∧ (w.fieldData uf).EndsBy p ∧ (∀ f ∈ u.fieldSet, f ∈ w.fieldSet) ∧
      ∀ f, f ≠ uf → w.fieldData f = u.fieldData f := by
    by_cases hg : going
    · obtain ⟨hmem, hends⟩ := hgoing hg
      rw [if_neg (not_not_intro hg)]
      exact ⟨u, rfl, h, hmem, hends, fun f hf => hf, fun f _ => rfl⟩
    · rw [if_pos hg]
      refine ⟨_, rfl, ParserUrl.begin_within h p 0 (Nat.le_of_succ_le hp),
        Finset.mem_insert_self _ _, u.begin_endsBy uf p 0, ?_, ?_⟩
      · intro f hf
        exact Finset.mem_insert_of_mem hf
      · intro f hf
        exact u.begin_of_ne uf f p 0 hf
  obtain ⟨w, hw, hwithin, hmem, hends, hset, hother⟩ := hstart
  have hgrow := ParserUrl.grow_endsBy hends
  have hv : v = w.grow uf := by rw [← hw]
  rw [hv]
  refine ⟨ParserUrl.grow_within hwithin hmem (hgrow.mono hp), hmem, hgrow, hset, ?_⟩
  intro f hf
  rw [← hother f hf]
  exact w.grow_of_ne uf f hf

/-- The host's offset is set, or stays, and its length grows. -/
theorem hostField_bounded (h : HostBounded u₀ n s p u) (hp : p+1 ≤ n) (going : Prop)
    [Decidable going] (hgoing : ¬going → s.beforeHost = true) :
    let v := (if ¬going then u.setOff .host p else u).grow .host
    v.Within u₀ n ∧ v.fieldSet = u.fieldSet ∧ (v.fieldData .host).EndsBy (p+1) := by
  intro v
  have hstart : ∃ w, (if ¬going then u.setOff .host p else u) = w ∧
      w.fieldSet = u.fieldSet ∧ (w.fieldData .host).EndsBy p ∧ w.Within u₀ n := by
    by_cases hg : going
    · rw [if_neg (not_not_intro hg)]
      exact ⟨u, rfl, rfl, h.host, h.within⟩
    · have hends : (⟨UInt16.ofNat p, (u.fieldData .host).len⟩ : UrlFieldData).EndsBy p := by
        rw [UrlFieldData.EndsBy, h.fresh (hgoing hg)]
        exact uint16_ofNat_le p
      rw [← ParserUrl.setOff_self] at hends
      rw [if_pos hg]
      refine ⟨_, rfl, rfl, hends, h.within.change (Finset.insert_eq_of_mem h.isSet).symm
        (hends.mono (Nat.le_of_succ_le hp)) ?_⟩
      intro f hf
      exact u.setOff_of_ne .host f p hf
  obtain ⟨w, hw, hset, hends, hwithin⟩ := hstart
  have hgrow := ParserUrl.grow_endsBy hends
  have hv : v = w.grow .host := by rw [← hw]
  rw [hv]
  refine ⟨ParserUrl.grow_within hwithin ?_ (hgrow.mono hp), hset, hgrow⟩
  rw [hset]
  exact h.isSet

/-- A byte that is in none of the fields. -/
theorem HostBounded.skip (h : HostBounded u₀ n s p u)
    (hbefore : newS.beforeHost = true → s.beforeHost = true) (hport : newS ≠ .hostPort)
    (huserinfo : newS ≠ .userinfo) : HostBounded u₀ n newS (p+1) u where
  within := h.within
  isSet := h.isSet
  host := h.host.mono (Nat.le_succ p)
  fresh := fun hs => h.fresh (hbefore hs)
  port := fun hs => absurd hs hport
  userinfo := fun hs => absurd hs huserinfo

/-- A byte of the host. -/
theorem HostBounded.onHost (h : HostBounded u₀ n s p u) (hp : p+1 ≤ n) (going : Prop)
    [Decidable going] (hgoing : ¬going → s.beforeHost = true) (hbefore : newS.beforeHost = false)
    (hport : newS ≠ .hostPort) (huserinfo : newS ≠ .userinfo) :
    HostBounded u₀ n newS (p+1) ((if ¬going then u.setOff .host p else u).grow .host) := by
  obtain ⟨hwithin, hset, hends⟩ := hostField_bounded h hp going hgoing
  refine ⟨hwithin, ?_, hends, ?_, fun hs => absurd hs hport, fun hs => absurd hs huserinfo⟩
  · rw [hset]
    exact h.isSet
  · intro hs
    rw [hbefore] at hs
    cases hs

theorem hostChar_bounded (h : HostBounded u₀ n s p u) (hp : p+1 ≤ n) (ch : UInt8)
    (hstep : cHttpParseHostChar s ch = newS) :
    HostBounded u₀ n newS (p+1) (hostField s newS p u) := by
  have hbefore : newS.beforeHost = true → s.beforeHost = true := by
    rw [← hstep]
    exact beforeHost_of_step
  cases newS with
  | host => exact h.onHost hp (s = .host) (beforeHost_of_host hstep) rfl nofun nofun
  | hostV6 => exact h.onHost hp (s = .hostV6) (beforeHost_of_hostV6 hstep) rfl nofun nofun
  | hostV6ZoneStart | hostV6Zone =>
    have hgrow : HostBounded u₀ n .hostV6Zone (p+1)
        ((if ¬True then u.setOff .host p else u).grow .host) :=
      h.onHost hp True (fun hn => absurd trivial hn) rfl nofun nofun
    rw [if_neg (not_not_intro trivial)] at hgrow
    exact ⟨hgrow.within, hgrow.isSet, hgrow.host, nofun, nofun, nofun⟩
  | hostPort =>
    obtain ⟨hwithin, hmem, hends, hset, hother⟩ :=
      otherField_bounded h.within hp .port (s = .hostPort) h.port
    refine ⟨hwithin, hset _ h.isSet, ?_, nofun, fun _ => ⟨hmem, hends⟩, nofun⟩
    rw [hostField, hother .host (by decide)]
    exact h.host.mono (Nat.le_succ p)
  | userinfo =>
    obtain ⟨hwithin, hmem, hends, hset, hother⟩ :=
      otherField_bounded h.within hp .userinfo (s = .userinfo) h.userinfo
    refine ⟨hwithin, hset _ h.isSet, ?_, ?_, nofun, fun _ => ⟨hmem, hends⟩⟩
    · rw [hostField, hother .host (by decide)]
      exact h.host.mono (Nat.le_succ p)
    · intro hs
      rw [hostField, hother .host (by decide)]
      exact h.fresh (hbefore hs)
  | dead | userinfoStart | hostStart | hostV6Start | hostV6End | hostPortStart =>
    exact h.skip hbefore nofun nofun

end host

/-- The loop over the host reads inside the buffer, by induction on the bytes that are left. -/
theorem hostLoop_bounded (u₀ : ParserUrl) (buf : Bytes) (n p : ℕ) (s : HttpHostState) (u : ParserUrl)
    (hn : p+n ≤ buf.length) (h : HostBounded u₀ buf.length s p u) :
    ∃ s' u', hostLoop buf p n s u = .ok (s', u') ∧ u'.Within u₀ buf.length := by
  induction n generalizing p s u with
  | zero => exact ⟨s, u, rfl, h.within⟩
  | succ n ih =>
    rw [hostLoop, byteAt_ok buf p (by omega), ok_bind]
    dsimp only
    split_ifs with hdead
    · exact ⟨.dead, u, rfl, h.within⟩
    · exact ih (p+1) _ _ (by omega) (hostChar_bounded h (by omega) _ rfl)

theorem cHttpParseHost_bounded (u₀ : ParserUrl) (buf : Bytes) (u : ParserUrl) (foundAt : Bool)
    (hset : UrlField.host ∈ u.fieldSet) (h : u.Within u₀ buf.length) :
    ∃ r u', cHttpParseHost buf u foundAt = .ok (r, u') ∧ u'.Within u₀ buf.length := by
  have hends := h.fits _ hset
  have hoff : ((u.clearLen .host).fieldData .host).EndsBy (u.fieldData .host).off.toNat := by
    rw [ParserUrl.clearLen_self]
    exact le_rfl
  have hwithin : (u.clearLen .host).Within u₀ buf.length := by
    refine h.change (Finset.insert_eq_of_mem hset).symm (hoff.mono ?_) ?_
    · exact le_trans (Nat.le_add_right _ _) hends
    · intro f hf
      exact u.clearLen_of_ne .host f hf
  have hfresh : ((u.clearLen .host).fieldData .host).len = 0 := by rw [ParserUrl.clearLen_self]
  obtain ⟨s, u', hloop, hu'⟩ := hostLoop_bounded u₀ buf _ _
    (if foundAt then .userinfoStart else .hostStart) (u.clearLen .host) hends
    ⟨hwithin, hset, hoff, fun _ => hfresh, by split_ifs <;> nofun, by split_ifs <;> nofun⟩
  refine ⟨if s.final then 0 else 1, u', ?_, hu'⟩
  rw [cHttpParseHost, decide_eq_true hset, cAssert_true, ok_bind]
  rw [hloop, ok_bind]

/-- The conversion of the port reads inside the buffer. -/
theorem portLoop_returns (buf : Bytes) (n p : ℕ) (v : ℤ) (hn : p+n ≤ buf.length) :
    ∃ r, portLoop buf p n v = .ok r := by
  induction n generalizing p v with
  | zero => exact ⟨_, rfl⟩
  | succ n ih =>
    rw [portLoop, byteAt_ok buf p (by omega), ok_bind]
    dsimp only
    split_ifs
    · exact ⟨none, rfl⟩
    · exact ih (p+1) _ (by omega)

theorem parsePort_bounded (u₀ : ParserUrl) (buf : Bytes) (u : ParserUrl)
    (hset : UrlField.port ∈ u.fieldSet) (h : u.Within u₀ buf.length) :
    ∃ r u', parsePort buf u = .ok (r, u') ∧ u'.Within u₀ buf.length := by
  have hends := h.fits _ hset
  obtain ⟨v, hv⟩ := portLoop_returns buf _ _ 0 hends
  rw [UrlFieldData.EndsBy] at hends
  rw [parsePort, decide_eq_true hends, cAssert_true, ok_bind, hv, ok_bind]
  cases v with
  | none => exact ⟨1, u, rfl, h⟩
  | some v => exact ⟨0, _, rfl, h.fits, h.frame⟩

theorem parseAuthority_bounded (u₀ : ParserUrl) (buf : Bytes) (l : UrlLocals)
    (h : l.u.Within u₀ buf.length) :
    ∃ r u, parseAuthority buf l = .ok (r, u) ∧ u.Within u₀ buf.length := by
  rw [parseAuthority]
  split_ifs with hschema hhost
  · exact ⟨1, l.u, rfl, h⟩
  · exact cHttpParseHost_bounded u₀ buf l.u l.foundAt hhost h
  · exact ⟨0, l.u, rfl, h⟩

theorem parse_url_within (buf : Bytes) (hbuf : buf ≠ []) (isConnect : Bool) (u₀ : ParserUrl) :
    ∃ r u, cHttpParserParseUrl buf isConnect u₀ = .ok (r, u) ∧ u.Within u₀ buf.length := by
  obtain ⟨l, hloop, hl⟩ := urlLoop_bounded u₀ buf 0 (UrlLocals.init isConnect u₀)
    ⟨⟨fun _ hf => absurd hf (Finset.notMem_empty _), fun _ _ => rfl⟩, nofun⟩
  rw [Nat.zero_add] at hl
  obtain ⟨failed, u, hauthority, hu⟩ := parseAuthority_bounded u₀ buf l hl.within
  rw [cHttpParserParseUrl, if_neg (List.length_pos_iff.mpr hbuf).ne', hloop, ok_bind]
  split_ifs with hdead
  · exact ⟨1, l.u, rfl, hl.within⟩
  · rw [hauthority, ok_bind]
    dsimp only
    split_ifs with hfailed hconnect hport
    · exact ⟨1, u, rfl, hu⟩
    · exact ⟨1, u, rfl, hu⟩
    · exact parsePort_bounded u₀ buf u hport hu
    · exact ⟨0, u, rfl, hu⟩

/-- On every buffer the parser returns, without a failed assertion or a read outside the
buffer. Whether it accepts or not, the fields it has set lie inside the buffer, and the
others are as they were. -/
theorem parse_url_returns (buf : Bytes) (isConnect : Bool) (u₀ : ParserUrl) :
    ∃ r u, cHttpParserParseUrl buf isConnect u₀ = .ok (r, u) ∧ (buf ≠ [] →
      (∀ f ∈ u.fieldSet, (u.fieldData f).off.toNat+(u.fieldData f).len.toNat ≤ buf.length) ∧
      ∀ f ∉ u.fieldSet, u.fieldData f = u₀.fieldData f) := by
  by_cases hbuf : buf = []
  · refine ⟨1, u₀, ?_, fun h => absurd hbuf h⟩
    rw [hbuf]
    rfl
  · obtain ⟨r, u, hparse, hwithin⟩ := parse_url_within buf hbuf isConnect u₀
    exact ⟨r, u, hparse, fun _ => ⟨hwithin.fits, hwithin.frame⟩⟩

end CHttp
