/-!
# Words

The limits of machine words, for numbers that a format or a command line bounds by them.
-/

set_option autoImplicit false

namespace SitePublish.Word

def limit32 : Nat := 0x100000000

def limit64 : Nat := 0x10000000000000000

def signBit : Nat := 0x8000000000000000

end SitePublish.Word
