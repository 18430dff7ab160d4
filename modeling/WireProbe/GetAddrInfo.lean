import Mathlib.Data.List.Lex
import Mathlib.Data.Prod.Lex
import WireProbe.Text

/-!
# The addresses of Python's getaddrinfo and their sort key

`_resolve_all` keeps the pair `(family, sockaddr)` of every answer, and the
rotation sorts such pairs by `(a[0], repr(a[1]))`. The printed form determines
the socket address, so the key orders the addresses linearly and no two of
them share a place.
-/

set_option autoImplicit false

namespace WireProbe.GetAddrInfo
open WireProbe.Text

def quote : Char := Char.ofNat 39
def backslash : Char := Char.ofNat 92

/-- The address text of a resolved name, as `inet_ntop` writes it: printable
ASCII without a quote or a backslash, to which `repr` adds its quotes only. -/
structure NumericHost where
  text : List Char
  plain : ∀ c ∈ text, c ≠ quote ∧ c ≠ backslash ∧ 32 ≤ c.toNat ∧ c.toNat < 127

theorem NumericHost.ext_text {a b : NumericHost} (h : a.text = b.text) : a = b := by
  cases a
  cases b
  simpa using h

/-- `(address, port)` for IPv4, `(address, port, flowinfo, scope_id)` for IPv6. -/
inductive SockAddr where
  | inet (host : NumericHost) (port : ℕ)
  | inet6 (host : NumericHost) (port flowinfo scopeId : ℕ)

structure AddrInfo where
  family : ℤ
  sockaddr : SockAddr

/-- `repr` of the text of a numeric host. -/
def reprHost (host : NumericHost) : List Char := quote::host.text++[quote]

/-- `repr` of a socket address tuple. -/
def reprSockaddr : SockAddr → List Char
  | .inet host port => '('::reprHost host++ ',':: ' '::decimal port++[')']
  | .inet6 host port flowinfo scopeId =>
    '('::reprHost host++ ',':: ' '::decimal port++ ',':: ' '::decimal flowinfo++
      ',':: ' '::decimal scopeId++[')']

/-- `lambda a: (a[0], repr(a[1]))`. -/
def sortKey (a : AddrInfo) : ℤ ×ₗ List Char := toLex (a.family,reprSockaddr a.sockaddr)

theorem host_field {a b : NumericHost} {rest rest' : List Char}
    (h : a.text++quote::rest = b.text++quote::rest') : a = b ∧ rest = rest' := by
  have hfield := field_unique (· ≠ quote) (fun c hc => (a.plain c hc).1)
    (fun c hc => (b.plain c hc).1) (by simp) (by simp) h
  exact ⟨NumericHost.ext_text hfield.1,hfield.2.2⟩

/-- Past the opening quote, the host and the two characters `, ` that end it. -/
theorem host_fields {a b : NumericHost} {rest rest' : List Char}
    (h : a.text++quote:: ',':: ' '::rest = b.text++quote:: ',':: ' '::rest') :
    a = b ∧ rest = rest' := by
  obtain ⟨hab,hrest⟩ := host_field h
  simp only [List.cons.injEq, true_and] at hrest
  exact ⟨hab,hrest⟩

theorem number_field {m n : ℕ} {rest rest' : List Char}
    (h : decimal m++ ',':: ' '::rest = decimal n++ ',':: ' '::rest') : m = n ∧ rest = rest' := by
  obtain ⟨hmn,-,hrest⟩ := decimal_field (by decide) (by decide) h
  simp only [List.cons.injEq, true_and] at hrest
  exact ⟨hmn,hrest⟩

theorem reprSockaddr_injective : Function.Injective reprSockaddr := by
  intro a b h
  cases a with
  | inet host port =>
    cases b with
    | inet host' port' =>
      simp only [reprSockaddr, reprHost, List.cons_append, List.append_assoc, List.nil_append,
        List.cons.injEq, true_and] at h
      obtain ⟨rfl,hport⟩ := host_fields h
      obtain ⟨rfl,-⟩ := decimal_field (by decide) (by decide) hport
      rfl
    | inet6 host' port' flowinfo' scopeId' =>
      simp only [reprSockaddr, reprHost, List.cons_append, List.append_assoc, List.nil_append,
        List.cons.injEq, true_and] at h
      obtain ⟨-,hport⟩ := host_fields h
      exact absurd (decimal_field (by decide) (by decide) hport).2.1 (by decide)
  | inet6 host port flowinfo scopeId =>
    cases b with
    | inet host' port' =>
      simp only [reprSockaddr, reprHost, List.cons_append, List.append_assoc, List.nil_append,
        List.cons.injEq, true_and] at h
      obtain ⟨-,hport⟩ := host_fields h
      exact absurd (decimal_field (by decide) (by decide) hport).2.1 (by decide)
    | inet6 host' port' flowinfo' scopeId' =>
      simp only [reprSockaddr, reprHost, List.cons_append, List.append_assoc, List.nil_append,
        List.cons.injEq, true_and] at h
      obtain ⟨rfl,hport⟩ := host_fields h
      obtain ⟨rfl,hflowinfo⟩ := number_field hport
      obtain ⟨rfl,hscopeId⟩ := number_field hflowinfo
      obtain ⟨rfl,-⟩ := decimal_field (by decide) (by decide) hscopeId
      rfl

theorem sortKey_injective : Function.Injective sortKey := by
  rintro ⟨family,sockaddr⟩ ⟨family',sockaddr'⟩ h
  obtain ⟨rfl,hrepr⟩ := Prod.mk.inj (toLex.injective h)
  obtain rfl := reprSockaddr_injective hrepr
  rfl

/-- The order of the sort keys. -/
instance : LinearOrder AddrInfo := LinearOrder.lift' sortKey sortKey_injective

/-- The IPv4 answer `(AF_INET, ("10.0.0.d", 9999))`. -/
def answer (d : Char) (h : d ∈ ['1','2','3']) : AddrInfo :=
  ⟨2,.inet ⟨"10.0.0.".toList++[d],by
    rw [← List.forall_iff_forall_mem]
    simp only [List.mem_cons, List.not_mem_nil, or_false] at h
    rcases h with rfl | rfl | rfl <;> decide⟩ 9999⟩

def answer1 : AddrInfo := answer '1' (by decide)
def answer2 : AddrInfo := answer '2' (by decide)
def answer3 : AddrInfo := answer '3' (by decide)

example : answer1 < answer2 := by decide

end WireProbe.GetAddrInfo
