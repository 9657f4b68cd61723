import Xvisor.Block.Exact
import Xvisor.Buddy.Guarantees
import Xvisor.Devemu.Access
import Xvisor.Devemu.Plic
import Xvisor.Guest.Aliases
import Xvisor.Guest.Balance
import Xvisor.Guest.Slices
import Xvisor.Host.Memmap
import Xvisor.Host.Mempool
import Xvisor.Host.MhashRuns
import Xvisor.Manager.Requests
import Xvisor.Mmu.Forest
import Xvisor.Mmu.Residue
import Xvisor.Nested.Faults
import Xvisor.Nested.Hfence
import Xvisor.Nested.WorldSwitch
import Xvisor.Net.Bridge
import Xvisor.Net.Netswitch
import Xvisor.Sbi.Exact
import Xvisor.Scheduler.Accounting
import Xvisor.Scheduler.Placement
import Xvisor.Scheduler.ReadyQueue
import Xvisor.Scheduler.StateChange
import Xvisor.Sync.Semaphore
import Xvisor.Sync.Workqueue
import Xvisor.Timer.GuestTimer
import Xvisor.Timer.Queue
import Xvisor.Timer.Wallclock
import Xvisor.Vcpu.Isa
import Xvisor.Vcpu.Wfi
import Xvisor.Vgic.Bounds
import Xvisor.Virtio.Answers
import Xvisor.Virtio.Iovec
import Xvisor.Virtio.Layout
