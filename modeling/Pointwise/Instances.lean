/-!
# Instances of the core library

Powers, sums and the order of lists mean the core library's in every file here. Where a file imports
an algebra, its instances would be found first: they are equal to these but not the same terms, and
a definition would not be the one that another file sees.
-/

namespace Pointwise

attribute [scoped instance (high)] instPowNat Zero.ofOfNat0 List.instLE List.decidableLE

end Pointwise
